import XChainHub.CrossChain.Pbft.Conditions

/-!
What one step of the engine can do, as a sequence of actions. A policy holds what
a run is assumed to respect; an action that rests on the policy carries that
fact, so each invariant is checked once an action and the handlers are unfolded
only here.
-/
namespace XChainHub.CrossChain
open StakeWeightedQuorum (Snapshot)

variable {R : Type}

/- fit and soleFit are asked of a round where its votes or its sole operator finalize
   it, names of a row a round opens with, admits of a row put in place given the commits
   signed so far, synced of an adopted FINAL_SYNC row, voted of a COMMIT vote taken in;
   soles says that sole-operator rounds may open at all. -/
structure Policy (R : Type) where
  soles : Prop
  names : String → R → Prop
  fit : R → String → ℚ → Binding → Prop
  admits : (String → List String) → String → R → Prop
  binds : Binding → Prop
  synced : String → R → Prop
  soleFit : R → String → ℚ → Binding → Prop
  voted : String → String → Prop

def Round.Fits (pol : Policy R) (p : Round R) : Prop := pol.fit p.row p.canonical p.view p.binding

def Round.SoleFits (pol : Policy R) (p : Round R) : Prop :=
  pol.soleFit p.row p.canonical p.view p.binding

def Output.committed (id : String) : Output R → Option String
  | .signed matchId (.commit c) => if matchId = id then some c else none
  | _ => none

/- The canonicals this hub signed a COMMIT for in a round id. -/
def commitsSigned (h : Hub R) (id : String) : List String := h.trace.filterMap (Output.committed id)

/- Changes that leave the votes and everything they are counted over alone. -/
structure Round.SameVotes (p q : Round R) : Prop where
  matchId : q.matchId = p.matchId
  row : q.row = p.row
  canonical : q.canonical = p.canonical
  binding : q.binding = p.binding
  prepares : q.prepares = p.prepares
  commits : q.commits = p.commits
  signatures : q.signatures = p.signatures
  finalized : q.finalized = p.finalized
  commitSent : q.commitSent = p.commitSent

/- A freshly opened round over its row's canonical at view 0. -/
structure Round.Opened (cfg : Params R) (p : Round R) : Prop where
  canonical : cfg.engine.canonicalMatch p.row 0 = some p.canonical
  prepares : p.prepares = .empty
  commits : p.commits = .empty
  signatures : p.signatures = .empty
  finalized : p.finalized = false
  commitSent : p.commitSent = false

structure Offer.Sound (cfg : Params R) (o : Offer R) : Prop where
  canonical : cfg.engine.canonicalMatch o.row o.view = some o.canonical
  named : cfg.toLowerCase (cfg.engine.matchId o.row) = o.matchId
  sender : cfg.toLowerCase o.senderPubkey = o.senderPubkey
  signed : cfg.verify o.canonical o.sig o.senderPubkey = true

structure Sync.Sound (cfg : Params R) (s : Sync R) : Prop where
  canonical : cfg.engine.canonicalMatch s.row s.view = some s.canonical
  named : cfg.toLowerCase (cfg.engine.matchId s.row) = s.matchId

def Task.Sound (cfg : Params R) (soles : Prop) : Task R → Prop
  | .validate o => o.Sound cfg
  | .adopt o _ => o.Sound cfg
  | .sync s _ => s.Sound cfg
  | .sole _ _ canonical => soles ∧ ∃ r v, cfg.engine.canonicalMatch r v = some canonical
  | _ => True

/- A rebound membership is normalized and admitted by the policy. -/
structure Rebound (cfg : Params R) (pol : Policy R) (b : Binding) : Prop where
  lowered : ∀ v ∈ b.validators, cfg.toLowerCase v.pubkey = v.pubkey
  admitted : pol.binds b

def Output.Silent (cfg : Params R) : Output R → Prop
  | .signed _ (.artifact c) => ∃ r v, cfg.engine.canonicalMatch r v = some c
  | .signed _ (.commit _) => False
  | .signed _ (.control tag _ _) => tag ∈ [cfg.engine.vcTag, cfg.engine.nvTag]
  | .broadcast _ => True
  | .finalized _ => False
  | .abandoned _ => True

/- The round finalized in the map, its event emitted. -/
def finalizedAs (cfg : Params R) (h : Hub R) (id : String) (rid : ℕ) (p : Round R) : Hub R :=
  (markFinalized cfg (h.modify rid Round.finalize) id rid p).emit (.finalized (p.event id))

inductive Act (cfg : Params R) (pol : Policy R) : Hub R → Hub R → Prop where
  | quiet {h after : Hub R} (heap : after.rounds = h.rounds) (map : after.pending = h.pending)
      (said : after.trace = h.trace) (tasks : ∀ t, some t ∈ after.tasks → some t ∈ h.tasks) :
      Act cfg pol h after
  | park {h : Hub R} {t : Task R} (sound : t.Sound cfg pol.soles) :
      Act cfg pol h (h.await t)
  | forget {h : Hub R} (id : String) : Act cfg pol h (h.forget id)
  | say {h : Hub R} {o : Output R} (silent : o.Silent cfg) : Act cfg pol h (h.emit o)
  | open {h : Hub R} {p : Round R} (opened : p.Opened cfg) (bound : Rebound cfg pol p.binding)
      (named : pol.names p.matchId p.row) (permit : pol.admits (commitsSigned h) p.matchId p.row) :
      Act cfg pol h (h.openRound p)
  | mark {h : Hub R} (rid : ℕ) {f : Round R → Round R} (same : ∀ p : Round R, p.SameVotes (f p)) :
      Act cfg pol h (h.modify rid f)
  | restamp {h : Hub R} (rid : ℕ) (t : ℚ) : Act cfg pol h (h.modify rid (Round.restamp cfg t))
  | rebuild {h : Hub R} {rid : ℕ} {p : Round R} {c : String} (record : h.rounds[rid]? = some p)
      (built : cfg.engine.canonicalMatch p.row p.view = some c)
      (permit : pol.admits (commitsSigned h) p.matchId p.row) :
      Act cfg pol h (h.modify rid (Round.rebuild c))
  | adopt {h : Hub R} {o : Offer R} {rebound : Option Binding} {p : Round R}
      (held : h.pendingRound o.matchId = some (o.rid, p)) (live : p.finalized = false)
      (sound : o.Sound cfg) (bound : ∀ b, rebound = some b → Rebound cfg pol b)
      (permit : pol.admits (commitsSigned h) o.matchId o.row) :
      Act cfg pol h (h.modify o.rid (Round.adopt o rebound))
  | countProposal {h : Hub R} {o : Offer R} {p : Round R} (record : h.rounds[o.rid]? = some p)
      (agrees : p.canonical = o.canonical) (sound : o.Sound cfg) :
      Act cfg pol h (h.modify o.rid (Round.countProposal cfg o))
  | castOwn {h : Hub R} {rid : ℕ} {p : Round R} (record : h.rounds[rid]? = some p) :
      Act cfg pol h (h.modify rid (Round.castOwn cfg p.canonical))
  | collect {h : Hub R} {rid : ℕ} {p : Round R} {key sig : String}
      (record : h.rounds[rid]? = some p) (lowered : cfg.toLowerCase key = key)
      (signed : p.finalized = false → cfg.verify p.canonical sig key = true) :
      Act cfg pol h (h.modify rid (Round.collect key sig))
  | countPrepare {h : Hub R} {rid : ℕ} {p : Round R} {key sig : String}
      (record : h.rounds[rid]? = some p) (lowered : cfg.toLowerCase key = key)
      (signed : cfg.verify p.canonical sig key = true) (member : p.binding.isMember key = true) :
      Act cfg pol h (h.modify rid (Round.countPrepare key sig))
  | countCommit {h : Hub R} {rid : ℕ} {p : Round R} {key sig : String}
      (record : h.rounds[rid]? = some p) (lowered : cfg.toLowerCase key = key)
      (signed : cfg.verify p.canonical sig key = true) (member : p.binding.isMember key = true)
      (vote : pol.voted key p.canonical) : Act cfg pol h (h.modify rid (Round.countCommit key sig))
  | sendCommit {h : Hub R} {id : String} {rid : ℕ} {p : Round R}
      (held : h.pendingRound id = some (rid, p)) (live : p.finalized = false)
      (fresh : p.commitSent = false) (met : meetsQuorum cfg p.binding p.prepares = true) :
      Act cfg pol h (((h.modify rid (Round.sendCommit cfg)).sign id (.commit p.canonical)).emit
        (.broadcast (p.commitMessage cfg id)))
  | finalize {h : Hub R} {id : String} {rid : ℕ} {p : Round R}
      (held : h.pendingRound id = some (rid, p)) (live : p.finalized = false)
      (met : meetsQuorum cfg p.binding p.commits = true) (fits : p.Fits pol) :
      Act cfg pol h (finalizedAs cfg h id rid p)
  | finalizeSole {h : Hub R} {id : String} {rid : ℕ} {p : Round R}
      (held : h.pendingRound id = some (rid, p)) (live : p.finalized = false)
      (own : cfg.pubkey ∈ p.signatures.keys) (fits : p.SoleFits pol) :
      Act cfg pol h (finalizedAs cfg h id rid p)
  | catchUp {h : Hub R} {s : Sync R} {p : Round R} {b : Binding}
      {verified : OrderedMap String String}
      (held : h.pendingRound s.matchId = some (s.rid, p)) (live : p.finalized = false)
      (sound : s.Sound cfg) (bound : b = p.binding ∨ Rebound cfg pol b)
      (proof : verifiedSyncSignatures cfg s.canonical s.signatures b = some verified)
      (synced : pol.synced s.matchId s.row) :
      Act cfg pol h (finalizedAs cfg (h.modify s.rid (Round.catchUp s b verified)) s.matchId s.rid
        (p.catchUp s b verified))

/- The map points at rounds of its own id, every canonical is some row's, and what
   waits was checked. -/
structure Ready (cfg : Params R) (soles : Prop) (h : Hub R) : Prop where
  linked : ∀ id rid, h.pending.get id = some rid → ∃ p, h.rounds[rid]? = some p ∧ p.matchId = id
  rooted : ∀ p ∈ h.rounds, ∃ r v, cfg.engine.canonicalMatch r v = some p.canonical
  parked : ∀ t, some t ∈ h.tasks → t.Sound cfg soles

theorem pending_round_iff {h : Hub R} {id : String} {rid : ℕ} {p : Round R} :
    h.pendingRound id = some (rid, p) ↔ h.pending.get id = some rid ∧ h.rounds[rid]? = some p := by
  simp only [Hub.pendingRound, Option.bind_eq_some_iff, Option.map_eq_some_iff, Prod.mk.injEq]
  constructor
  · rintro ⟨other, found, q, record, rfl, rfl⟩
    exact ⟨found, record⟩
  · rintro ⟨found, record⟩
    exact ⟨rid, found, p, record, rfl, rfl⟩

theorem modify_round {h : Hub R} {rid other : ℕ} {f : Round R → Round R} :
    (h.modify rid f).rounds[other]? =
      h.rounds[other]?.map (fun p => if rid = other then f p else p) := by
  simp [Hub.modify, List.getElem?_modify]

theorem modify_twice (h : Hub R) (rid : ℕ) (f g : Round R → Round R) :
    (h.modify rid f).modify rid g = h.modify rid (g ∘ f) := by
  simp [Hub.modify, List.modify_modify_eq]

theorem modify_round_same {h : Hub R} {rid : ℕ} {f : Round R → Round R} {p : Round R}
    (record : h.rounds[rid]? = some p) : (h.modify rid f).rounds[rid]? = some (f p) := by
  simp [modify_round, record]

theorem modify_pending_round {h : Hub R} {id : String} {rid : ℕ} {p : Round R}
    {f : Round R → Round R} (held : h.pendingRound id = some (rid, p)) :
    (h.modify rid f).pendingRound id = some (rid, f p) := by
  obtain ⟨found, record⟩ := pending_round_iff.mp held
  exact pending_round_iff.mpr ⟨found, modify_round_same record⟩

theorem modify_members {h : Hub R} {rid : ℕ} {f : Round R → Round R} {p : Round R}
    (member : p ∈ (h.modify rid f).rounds) :
    p ∈ h.rounds ∨ ∃ q, h.rounds[rid]? = some q ∧ p = f q := by
  obtain ⟨i, found⟩ := List.mem_iff_getElem?.mp member
  rw [modify_round] at found
  obtain ⟨q, stored, rfl⟩ := Option.map_eq_some_iff.mp found
  split
  · rename_i same
    exact Or.inr ⟨q, by rw [same]; exact stored, rfl⟩
  · exact Or.inl (List.mem_of_getElem? stored)

@[simp] theorem emit_pending_round (h : Hub R) (o : Output R) (id : String) :
    (h.emit o).pendingRound id = h.pendingRound id := rfl

@[simp] theorem sign_pending_round (h : Hub R) (matchId : String) (payload : Payload)
    (id : String) : (h.sign matchId payload).pendingRound id = h.pendingRound id := rfl

@[simp] theorem settle_pending_round (h : Hub R) (tid : ℕ) (id : String) :
    (h.settle tid).pendingRound id = h.pendingRound id := rfl

@[simp] theorem commits_signed_modify (h : Hub R) (rid : ℕ) (f : Round R → Round R) :
    commitsSigned (h.modify rid f) = commitsSigned h := rfl

theorem commits_signed_emit {h : Hub R} {o : Output R} (id : String) :
    commitsSigned (h.emit o) id = commitsSigned h id ++ (o.committed id).toList := by
  simp only [commitsSigned, Hub.emit, List.filterMap_append]
  cases found : o.committed id <;> simp [found]

theorem commits_signed_mono {a b : Hub R} (grown : a.trace <+: b.trace) (id : String) :
    commitsSigned a id ⊆ commitsSigned b id :=
  (grown.filterMap _).subset

theorem commits_signed_silent {cfg : Params R} {h : Hub R} {o : Output R}
    (silent : o.Silent cfg) : commitsSigned (h.emit o) = commitsSigned h := by
  funext id
  rw [commits_signed_emit]
  have none_committed : o.committed id = none := by
    cases o with
    | signed matchId payload =>
      cases payload with
      | commit c => exact silent.elim
      | artifact c => rfl
      | control tag matchId view => rfl
    | broadcast m => rfl
    | finalized f => rfl
    | abandoned matchId => rfl
  simp [none_committed]

/- Marking an id finalized touches the two finalized stores only. -/
theorem mark_finalized_keeps (cfg : Params R) (h : Hub R) (id : String) (rid : ℕ) (p : Round R) :
    (markFinalized cfg h id rid p).rounds = h.rounds ∧
      (markFinalized cfg h id rid p).pending = h.pending ∧
      (markFinalized cfg h id rid p).trace = h.trace ∧
      (markFinalized cfg h id rid p).tasks = h.tasks := by
  simp only [markFinalized]
  split
  · exact ⟨rfl, rfl, rfl, rfl⟩
  · split
    · split
      · exact ⟨rfl, rfl, rfl, rfl⟩
      · exact ⟨rfl, rfl, rfl, rfl⟩
    · exact ⟨rfl, rfl, rfl, rfl⟩

section
variable {cfg : Params R} {pol : Policy R}

theorem finalized_as_rounds (cfg : Params R) (h : Hub R) (id : String) (rid : ℕ) (p : Round R) :
    (finalizedAs cfg h id rid p).rounds = (h.modify rid Round.finalize).rounds :=
  (mark_finalized_keeps cfg (h.modify rid Round.finalize) id rid p).1

theorem finalized_as_pending (cfg : Params R) (h : Hub R) (id : String) (rid : ℕ) (p : Round R) :
    (finalizedAs cfg h id rid p).pending = h.pending :=
  (mark_finalized_keeps cfg (h.modify rid Round.finalize) id rid p).2.1

theorem finalized_as_trace (cfg : Params R) (h : Hub R) (id : String) (rid : ℕ) (p : Round R) :
    (finalizedAs cfg h id rid p).trace = h.trace ++ [.finalized (p.event id)] := by
  simp only [finalizedAs, Hub.emit, (mark_finalized_keeps cfg _ id rid p).2.2.1]
  rfl

theorem finalized_as_tasks (cfg : Params R) (h : Hub R) (id : String) (rid : ℕ) (p : Round R) :
    (finalizedAs cfg h id rid p).tasks = h.tasks :=
  (mark_finalized_keeps cfg (h.modify rid Round.finalize) id rid p).2.2.2

theorem commits_signed_finalized (cfg : Params R) (h : Hub R) (id : String) (rid : ℕ)
    (p : Round R) :
    commitsSigned (finalizedAs cfg h id rid p) = commitsSigned h := by
  funext other
  simp [commitsSigned, finalized_as_trace, Output.committed]

theorem same_pending_round {a b : Hub R} (heap : b.rounds = a.rounds) (map : b.pending = a.pending)
    (id : String) : b.pendingRound id = a.pendingRound id := by
  simp [Hub.pendingRound, heap, map]

/-- Readiness survives any change of one round that keeps its id and whose new
    canonical is some row's. -/
theorem Ready.modify {soles : Prop} {h after : Hub R} (ready : Ready cfg soles h) {rid : ℕ}
    {f : Round R → Round R}
    (heap : after.rounds = (h.modify rid f).rounds) (map : after.pending = h.pending)
    (tasks : after.tasks = h.tasks) (named : ∀ p : Round R, (f p).matchId = p.matchId)
    (rooted : ∀ p, h.rounds[rid]? = some p →
      ∃ r v, cfg.engine.canonicalMatch r v = some (f p).canonical) : Ready cfg soles after := by
  refine ⟨?_, ?_, ?_⟩
  · intro id other found
    rw [map] at found
    obtain ⟨p, record, same⟩ := ready.linked id other found
    rw [heap, modify_round, record]
    refine ⟨_, rfl, ?_⟩
    split
    · rw [named, same]
    · exact same
  · intro p member
    rw [heap] at member
    rcases modify_members member with old | ⟨q, stored, rfl⟩
    · exact ready.rooted p old
    · exact rooted q stored
  · rw [tasks]
    exact ready.parked

theorem Ready.modify_kept {soles : Prop} {h : Hub R} (ready : Ready cfg soles h) {rid : ℕ}
    {f : Round R → Round R} (named : ∀ p : Round R, (f p).matchId = p.matchId)
    (kept : ∀ p : Round R, (f p).canonical = p.canonical) : Ready cfg soles (h.modify rid f) := by
  refine ready.modify rfl rfl rfl named ?_
  intro p stored
  rw [kept]
  exact ready.rooted p (List.mem_of_getElem? stored)

theorem Ready.emit {soles : Prop} {h : Hub R} (ready : Ready cfg soles h) (o : Output R) :
    Ready cfg soles (h.emit o) :=
  ⟨ready.linked, ready.rooted, ready.parked⟩

theorem Ready.forget {soles : Prop} {h : Hub R} (ready : Ready cfg soles h) (id : String) :
    Ready cfg soles (h.forget id) := by
  refine ⟨?_, ready.rooted, ready.parked⟩
  intro other rid found
  by_cases same : other = id
  · subst same
    simp [Hub.forget] at found
  · simp only [Hub.forget, OrderedMap.get_erase_other same] at found
    exact ready.linked other rid found

theorem Ready.open {soles : Prop} {h : Hub R} (ready : Ready cfg soles h) {p : Round R}
    (opened : p.Opened cfg) : Ready cfg soles (h.openRound p) := by
  refine ⟨?_, ?_, ready.parked⟩
  · intro id rid found
    by_cases same : id = p.matchId
    · subst same
      simp only [Hub.openRound, OrderedMap.get_set_same, Option.some.injEq] at found
      subst found
      exact ⟨p, by simp [Hub.openRound], rfl⟩
    · simp only [Hub.openRound, OrderedMap.get_set_other same] at found
      obtain ⟨q, record, named⟩ := ready.linked id rid found
      refine ⟨q, ?_, named⟩
      simp only [Hub.openRound]
      rw [List.getElem?_append_left (List.getElem?_eq_some_iff.mp record).1]
      exact record
  · intro q member
    rcases List.mem_append.mp member with old | new
    · exact ready.rooted q old
    · rw [List.mem_singleton.mp new]
      exact ⟨_, _, opened.canonical⟩

theorem Ready.pending_named {soles : Prop} {h : Hub R} (ready : Ready cfg soles h)
    {id : String} {rid : ℕ} {p : Round R} (held : h.pendingRound id = some (rid, p)) :
    p.matchId = id := by
  obtain ⟨found, record⟩ := pending_round_iff.mp held
  obtain ⟨q, stored, named⟩ := ready.linked id rid found
  rw [record, Option.some.injEq] at stored
  rw [stored]
  exact named

theorem raise_view_votes (view : ℚ) (p : Round R) : p.SameVotes (p.raiseView view) := by
  simp only [Round.raiseView]
  split
  · exact ⟨rfl, rfl, rfl, rfl, rfl, rfl, rfl, rfl, rfl⟩
  · exact ⟨rfl, rfl, rfl, rfl, rfl, rfl, rfl, rfl, rfl⟩

theorem count_leader_named (o : Offer R) (p : Round R) : (p.countLeader o).matchId = p.matchId :=
  (raise_view_votes o.view p).matchId

theorem count_leader_canonical (o : Offer R) (p : Round R) :
    (p.countLeader o).canonical = p.canonical :=
  (raise_view_votes o.view p).canonical

theorem count_proposal_named (o : Offer R) (p : Round R) :
    (p.countProposal cfg o).matchId = p.matchId := by
  simp only [Round.countProposal]
  split
  · exact count_leader_named o p
  · exact count_leader_named o p

theorem count_proposal_canonical (o : Offer R) (p : Round R) :
    (p.countProposal cfg o).canonical = p.canonical := by
  simp only [Round.countProposal]
  split
  · exact count_leader_canonical o p
  · exact count_leader_canonical o p

theorem count_proposal_row (o : Offer R) (p : Round R) : (p.countProposal cfg o).row = p.row := by
  have led : (p.countLeader o).row = p.row := (raise_view_votes o.view p).row
  simp only [Round.countProposal]
  split
  · exact led
  · exact led

theorem count_proposal_binding (o : Offer R) (p : Round R) :
    (p.countProposal cfg o).binding = p.binding := by
  have led : (p.countLeader o).binding = p.binding := (raise_view_votes o.view p).binding
  simp only [Round.countProposal]
  split
  · exact led
  · exact led

theorem count_proposal_commits (o : Offer R) (p : Round R) :
    (p.countProposal cfg o).commits = p.commits := by
  have led : (p.countLeader o).commits = p.commits := (raise_view_votes o.view p).commits
  simp only [Round.countProposal]
  split
  · exact led
  · exact led

theorem count_proposal_finalized (o : Offer R) (p : Round R) :
    (p.countProposal cfg o).finalized = p.finalized := by
  have led : (p.countLeader o).finalized = p.finalized := (raise_view_votes o.view p).finalized
  simp only [Round.countProposal]
  split
  · exact led
  · exact led

theorem act_ready {a b : Hub R} (ready : Ready cfg pol.soles a) (act : Act cfg pol a b) :
    Ready cfg pol.soles b := by
  cases act with
  | quiet heap map said tasks =>
    exact ⟨by rw [heap, map]; exact ready.linked, by rw [heap]; exact ready.rooted,
      fun t member => ready.parked t (tasks t member)⟩
  | park sound =>
    refine ⟨ready.linked, ready.rooted, ?_⟩
    intro t member
    rcases List.mem_append.mp member with old | new
    · exact ready.parked t old
    · rw [Option.some.inj (List.mem_singleton.mp new)]
      exact sound
  | forget id => exact ready.forget id
  | say silent => exact ready.emit _
  | «open» opened bound named permit => exact ready.open opened
  | mark rid same =>
    exact ready.modify_kept (fun p => (same p).matchId) (fun p => (same p).canonical)
  | restamp rid t => exact ready.modify_kept (fun _ => rfl) (fun _ => rfl)
  | rebuild record built permit =>
    exact ready.modify rfl rfl rfl (fun _ => rfl) (fun _ _ => ⟨_, _, built⟩)
  | adopt held live sound bound permit =>
    exact ready.modify rfl rfl rfl (fun _ => rfl) (fun _ _ => ⟨_, _, sound.canonical⟩)
  | countProposal record agrees sound =>
    exact ready.modify_kept (count_proposal_named _) (count_proposal_canonical _)
  | castOwn record => exact ready.modify_kept (fun _ => rfl) (fun _ => rfl)
  | collect record lowered signed => exact ready.modify_kept (fun _ => rfl) (fun _ => rfl)
  | countPrepare record lowered signed member =>
    exact ready.modify_kept (fun _ => rfl) (fun _ => rfl)
  | countCommit record lowered signed member vote =>
    exact ready.modify_kept (fun _ => rfl) (fun _ => rfl)
  | sendCommit held live fresh met =>
    refine Ready.emit (Ready.emit (ready.modify_kept ?_ ?_) _) _
    · exact fun _ => rfl
    · exact fun _ => rfl
  | finalize held live met fits =>
    exact ready.modify (finalized_as_rounds ..) (finalized_as_pending ..) (finalized_as_tasks ..)
      (fun _ => rfl) (fun q stored => ready.rooted q (List.mem_of_getElem? stored))
  | finalizeSole held live own fits =>
    exact ready.modify (finalized_as_rounds ..) (finalized_as_pending ..) (finalized_as_tasks ..)
      (fun _ => rfl) (fun q stored => ready.rooted q (List.mem_of_getElem? stored))
  | @catchUp s p b verified held live sound bound proof synced =>
    have caught : Ready cfg pol.soles (a.modify s.rid (Round.catchUp s b verified)) :=
      ready.modify rfl rfl rfl (fun _ => rfl) (fun _ _ => ⟨_, _, sound.canonical⟩)
    exact caught.modify (finalized_as_rounds ..) (finalized_as_pending ..) (finalized_as_tasks ..)
      (fun _ => rfl) (fun q stored => caught.rooted q (List.mem_of_getElem? stored))

theorem act_trace {a b : Hub R} (act : Act cfg pol a b) : a.trace <+: b.trace := by
  cases act with
  | quiet heap map said tasks =>
    rw [said]
  | say silent => exact List.prefix_append _ _
  | sendCommit held live fresh met =>
    exact (List.prefix_append _ _).trans (List.prefix_append _ _)
  | finalize held live met fits =>
    rw [finalized_as_trace]
    exact List.prefix_append _ _
  | finalizeSole held live own fits =>
    rw [finalized_as_trace]
    exact List.prefix_append _ _
  | catchUp held live sound bound proof synced =>
    rw [finalized_as_trace]
    exact List.prefix_append _ _
  | _ => exact List.prefix_refl _

theorem acts_trace {a b : Hub R} (path : Relation.ReflTransGen (Act cfg pol) a b) :
    a.trace <+: b.trace := by
  induction path with
  | refl => exact List.prefix_refl _
  | tail _ last ih => exact ih.trans (act_trace last)

/- From a ready state, actions alone lead from h to after. -/
def Leads (cfg : Params R) (pol : Policy R) (h after : Hub R) : Prop :=
  Ready cfg pol.soles h → Relation.ReflTransGen (Act cfg pol) h after ∧ Ready cfg pol.soles after

theorem Leads.refl (h : Hub R) : Leads cfg pol h h :=
  fun ready => ⟨Relation.ReflTransGen.refl, ready⟩

theorem Leads.trans {a b c : Hub R} (first : Leads cfg pol a b) (second : Leads cfg pol b c) :
    Leads cfg pol a c := by
  intro ready
  obtain ⟨there, middle⟩ := first ready
  obtain ⟨onward, final⟩ := second middle
  exact ⟨there.trans onward, final⟩

theorem Act.leads {h after : Hub R} (act : Act cfg pol h after) : Leads cfg pol h after :=
  fun ready => ⟨Relation.ReflTransGen.single act, act_ready ready act⟩

theorem leads_of_ready {h after : Hub R} (given : Ready cfg pol.soles h → Leads cfg pol h after) :
    Leads cfg pol h after := fun ready => given ready ready

theorem quiet_leads {h after : Hub R} (heap : after.rounds = h.rounds)
    (map : after.pending = h.pending) (said : after.trace = h.trace)
    (tasks : after.tasks = h.tasks) : Leads cfg pol h after :=
  (Act.quiet heap map said (fun t member => by rw [tasks] at member; exact member)).leads

theorem settle_leads (h : Hub R) (tid : ℕ) : Leads cfg pol h (h.settle tid) := by
  have kept : ∀ t, some t ∈ (h.settle tid).tasks → some t ∈ h.tasks := by
    intro t member
    rcases List.mem_or_eq_of_mem_set member with old | new
    · exact old
    · exact absurd new (by simp)
  exact Act.leads (Act.quiet rfl rfl rfl kept)

theorem buffer_leads (env : Env) (h : Hub R) (id : String) (m : Message R) :
    Leads cfg pol h (bufferEarlyMessage cfg env h id m) := by
  simp only [bufferEarlyMessage]
  split
  · exact quiet_leads rfl rfl rfl rfl
  · exact quiet_leads rfl rfl rfl rfl

theorem drain_leads (h : Hub R) (id : String) : Leads cfg pol h (drainEarlyMessages h id) := by
  simp only [drainEarlyMessages]
  split
  · exact Leads.refl h
  · exact quiet_leads rfl rfl rfl rfl

theorem say_leads {h : Hub R} {o : Output R} (silent : o.Silent cfg) :
    Leads cfg pol h (h.emit o) := (Act.say silent).leads

theorem finalize_leads {h : Hub R} {id : String}
    (act : ∀ rid p, h.pendingRound id = some (rid, p) → p.finalized = false →
      Act cfg pol h (finalizedAs cfg h id rid p)) : Leads cfg pol h (finalize cfg h id) := by
  simp only [finalize]
  split
  · exact Leads.refl h
  · rename_i rid p held
    split
    · exact Leads.refl h
    · rename_i live
      exact (act rid p held (by simpa using live)).leads

theorem check_commit_quorum_leads {h : Hub R} {id : String}
    (fits : ∀ rid p, h.pendingRound id = some (rid, p) → commitCompletes cfg p = true →
      p.Fits pol) : Leads cfg pol h (checkCommitQuorum cfg h id) := by
  simp only [checkCommitQuorum]
  split
  · exact Leads.refl h
  · rename_i rid p held
    split
    · exact Leads.refl h
    · rename_i live
      split
      · exact Leads.refl h
      · rename_i met
        simp only [Bool.not_eq_true, Bool.not_eq_false'] at live met
        refine finalize_leads (fun other q found _ => ?_)
        rw [held, Option.some.injEq, Prod.mk.injEq] at found
        obtain ⟨rfl, rfl⟩ := found
        exact Act.finalize held live met (fits rid p held (by simp [commitCompletes, live, met]))

theorem check_prepare_quorum_leads {h : Hub R} {id : String}
    (fits : ∀ rid p, h.pendingRound id = some (rid, p) → prepareCompletes cfg p = true →
      p.Fits pol) : Leads cfg pol h (checkPrepareQuorum cfg h id) := by
  simp only [checkPrepareQuorum]
  split
  · exact Leads.refl h
  · rename_i rid p held
    split
    · exact Leads.refl h
    · rename_i fresh
      split
      · exact Leads.refl h
      · rename_i met
        simp only [Bool.or_eq_true, not_or, Bool.not_eq_true, Bool.not_eq_false'] at fresh met
        have sent : Leads cfg pol h _ := (Act.sendCommit held fresh.1 fresh.2 met).leads
        refine sent.trans (check_commit_quorum_leads (fun other q found completes => ?_))
        rw [emit_pending_round, sign_pending_round, modify_pending_round held, Option.some.injEq,
          Prod.mk.injEq] at found
        obtain ⟨-, rfl⟩ := found
        have both : prepareCompletes cfg p = true := by
          simp only [commitCompletes, Bool.and_eq_true] at completes
          simp only [prepareCompletes, fresh, met, Bool.not_false, Bool.and_self, Bool.true_and]
          exact completes.2
        exact fits rid p held both

theorem handle_prepare_leads (env : Env) {h : Hub R} {matchId sigPubkey : String}
    (view : Option ℚ) {sig : Option String}
    (fits : ∀ p, completedByMessage cfg h (.prepare matchId view sigPubkey sig) = some p →
      p.Fits pol) (m : Message R) :
    Leads cfg pol h (handlePrepare cfg env h m matchId sigPubkey sig) := by
  simp only [handlePrepare]
  split
  · exact Leads.refl h
  · split
    · exact Leads.refl h
    · split
      · exact buffer_leads env h _ m
      · rename_i rid p held
        split
        · exact Leads.refl h
        · rename_i member
          split
          · exact buffer_leads env h _ m
          · rename_i s
            split
            · exact buffer_leads env h _ m
            · rename_i verified
              simp only [Bool.not_eq_true, Bool.not_eq_false'] at member verified
              have record := (pending_round_iff.mp held).2
              have counted : Leads cfg pol h _ :=
                (Act.countPrepare record (cfg.lower_idem sigPubkey) verified member).leads
              refine counted.trans (check_prepare_quorum_leads (fun other q found completes => ?_))
              rw [modify_pending_round held, Option.some.injEq, Prod.mk.injEq] at found
              obtain ⟨-, rfl⟩ := found
              exact fits _ (by simp [completedByMessage, held, member, verified, completes])

theorem handle_commit_leads (env : Env) {h : Hub R} {matchId sigPubkey : String}
    (view : Option ℚ) {sig commitSig : Option String}
    (fits : ∀ p, completedByMessage cfg h (.commit matchId view sigPubkey sig commitSig) = some p →
      p.Fits pol)
    (heard : ∀ s rid p, commitSig = some s →
      h.pendingRound (cfg.toLowerCase matchId) = some (rid, p) →
      cfg.verify (commitPayload cfg.engine p.canonical) s (cfg.toLowerCase sigPubkey) = true →
      pol.voted (cfg.toLowerCase sigPubkey) p.canonical) (m : Message R) :
    Leads cfg pol h (handleCommit cfg env h m matchId sigPubkey sig commitSig) := by
  simp only [handleCommit]
  split
  · exact Leads.refl h
  · split
    · exact Leads.refl h
    · split
      · exact buffer_leads env h _ m
      · rename_i rid p held
        split
        · exact Leads.refl h
        · rename_i member
          split
          · exact buffer_leads env h _ m
          · rename_i s
            split
            · exact buffer_leads env h _ m
            · rename_i verified
              simp only [Bool.not_eq_true, Bool.not_eq_false'] at member verified
              have record := (pending_round_iff.mp held).2
              have lowered := cfg.lower_idem sigPubkey
              split
              · exact (Act.collect record lowered (fun _ => verified)).leads
              · rename_i bound
                simp only [Bool.not_eq_true, Bool.not_eq_false'] at bound
                have vote : pol.voted (cfg.toLowerCase sigPubkey) p.canonical := by
                  cases commitSig with
                  | none => simp [verifies] at bound
                  | some cs => exact heard cs rid p rfl held bound
                have counted : Leads cfg pol h _ :=
                  (Act.countCommit record lowered verified member vote).leads
                refine counted.trans (check_commit_quorum_leads (fun other q found completes => ?_))
                rw [modify_pending_round held, Option.some.injEq, Prod.mk.injEq] at found
                obtain ⟨-, rfl⟩ := found
                exact fits _
                  (by simp [completedByMessage, held, member, verified, bound, completes])

theorem leader_proposal_sound {id : String} {rid : ℕ} {p : Round R} {view : Option ℚ}
    {row : Option R} {sigPubkey : String} {sig : Option String} {o : Offer R}
    (found : leaderProposal cfg id rid p view row sigPubkey sig = some o) : o.Sound cfg := by
  simp only [leaderProposal] at found
  split at found
  · simp at found
  · split at found
    · simp at found
    · split at found
      · simp at found
      · split at found
        · split at found
          · simp at found
          · rename_i named
            split at found
            · simp at found
            · rename_i canonical built
              split at found
              · rename_i signed
                rw [← Option.some.inj found]
                exact ⟨built, by simpa using named, cfg.lower_idem sigPubkey, signed⟩
              · simp at found
        · simp at found

theorem handle_propose_leads (env : Env) (h : Hub R) (m : Message R) (matchId : String)
    (view : Option ℚ) (row : Option R) (sigPubkey : String) (sig : Option String) :
    Leads cfg pol h (handlePropose cfg env h m matchId view row sigPubkey sig) := by
  simp only [handlePropose]
  split
  · exact Leads.refl h
  · split
    · exact Leads.refl h
    · split
      · exact buffer_leads env h _ m
      · split
        · exact Leads.refl h
        · rename_i offer found
          have sound : (Task.validate offer).Sound cfg pol.soles := leader_proposal_sound found
          exact (Act.park sound).leads

theorem count_leader_and_own_prepare_leads {h : Hub R} {o : Offer R} {p : Round R}
    (record : h.rounds[o.rid]? = some p) (agrees : p.canonical = o.canonical)
    (sound : o.Sound cfg) (fits : ∀ q, completedByOffer cfg h o = some q → q.Fits pol) :
    Leads cfg pol h (countLeaderAndOwnPrepare cfg h o) := by
  have counted : Leads cfg pol h (h.modify o.rid (Round.countProposal cfg o)) :=
    (Act.countProposal record agrees sound).leads
  have completed : ∀ g : Hub R, (∀ id, g.pendingRound id =
      (h.modify o.rid (Round.countProposal cfg o)).pendingRound id) →
      Leads cfg pol g (checkPrepareQuorum cfg g o.matchId) := by
    intro g same
    refine check_prepare_quorum_leads (fun rid q found completes => ?_)
    rw [same] at found
    exact fits q (by simp [completedByOffer, found, completes])
  simp only [countLeaderAndOwnPrepare, record]
  split
  · exact counted.trans (completed _ (fun _ => rfl))
  · have signed : (Output.signed o.matchId (.artifact o.canonical) : Output R).Silent cfg :=
      ⟨_, _, sound.canonical⟩
    refine counted.trans ((say_leads signed).trans ((say_leads ?_).trans (completed _ ?_)))
    · exact trivial
    · exact fun _ => rfl

theorem binding_of_lowered (rows : List StakeWeightedQuorum.Row) (weighted : Bool) :
    ∀ v ∈ (bindingOf cfg rows weighted).validators, cfg.toLowerCase v.pubkey = v.pubkey := by
  intro v member
  obtain ⟨row, -, rfl⟩ := List.mem_map.mp member
  exact cfg.lower_idem row.pubkey

theorem rebind_snapshot_bound {rebind : Rebind} {reply : Option Snapshot}
    {rebound : Option Binding} (found : rebindSnapshot cfg rebind reply = some rebound)
    (bound : ∀ b, (rebindSnapshot cfg rebind reply).join = some b → pol.binds b) :
    ∀ b, rebound = some b → Rebound cfg pol b := by
  rintro b rfl
  refine ⟨?_, bound b (by rw [found]; rfl)⟩
  simp only [rebindSnapshot] at found
  split at found
  · simp at found
  · simp at found
  · split at found
    · simp at found
    · split at found
      · simp at found
      · split at found
        · simp at found
        · split at found
          · simp at found
          · rw [← Option.some.inj (Option.some.inj found)]
            exact binding_of_lowered _ _

theorem still_pending_held {h : Hub R} {id : String} {rid : ℕ} {p : Round R}
    (found : stillPending h id rid = some p) :
    h.pendingRound id = some (rid, p) ∧ p.finalized = false := by
  simp only [stillPending] at found
  split at found
  · simp at found
  · split at found
    · simp at found
    · rename_i held q pending
      split at found
      · simp at found
      · rename_i same
        simp only [ne_eq, Bool.or_eq_true, decide_eq_true_eq, not_or, not_not,
          Bool.not_eq_true] at same
        rw [← Option.some.inj found, pending, same.1]
        exact ⟨rfl, same.2⟩

theorem adopt_leader_row_cases {h adopted : Hub R} {o : Offer R}
    {rebound : Option (Option Binding)} (found : adoptLeaderRow h o rebound = some adopted) :
    ∃ b p, rebound = some b ∧ stillPending h o.matchId o.rid = some p ∧
      adopted = h.modify o.rid (Round.adopt o b) := by
  simp only [adoptLeaderRow] at found
  split at found
  · rename_i b p live
    split at found
    · simp at found
    · exact ⟨b, p, rfl, live, (Option.some.inj found).symm⟩
  · simp at found

theorem row_rebound_leads {h : Hub R} {o : Offer R} {rebind : Rebind} {reply : Option Snapshot}
    (sound : o.Sound cfg)
    (bound : ∀ b, (rebindSnapshot cfg rebind reply).join = some b → pol.binds b)
    (permit : ∀ adopted, adoptLeaderRow h o (rebindSnapshot cfg rebind reply) = some adopted →
      pol.admits (commitsSigned h) o.matchId o.row)
    (fits : ∀ adopted q, adoptLeaderRow h o (rebindSnapshot cfg rebind reply) = some adopted →
      completedByOffer cfg adopted o = some q → q.Fits pol) :
    Leads cfg pol h (rowRebound cfg h o (rebindSnapshot cfg rebind reply)) := by
  simp only [rowRebound]
  split
  · exact Leads.refl h
  · rename_i adopted found
    obtain ⟨b, p, rebound, live, same⟩ := adopt_leader_row_cases found
    obtain ⟨held, fresh⟩ := still_pending_held live
    have record := (pending_round_iff.mp held).2
    have moved : Leads cfg pol h adopted := by
      rw [same]
      exact (Act.adopt held fresh sound (rebind_snapshot_bound rebound bound)
        (permit adopted found)).leads
    have after : adopted.rounds[o.rid]? = some (p.adopt o b) := by
      rw [same]
      exact modify_round_same record
    refine moved.trans (Leads.trans ?_ (drain_leads _ _))
    exact count_leader_and_own_prepare_leads after rfl sound (fun q => fits adopted q found)

theorem proposal_validated_leads {h : Hub R} {o : Offer R} {ok : Bool} (sound : o.Sound cfg)
    (fits : ∀ p q, h.rounds[o.rid]? = some p → ok = true → o.canonical = p.canonical →
      completedByOffer cfg h o = some q → q.Fits pol) :
    Leads cfg pol h (proposalValidated cfg h o ok) := by
  simp only [proposalValidated]
  split
  · exact Leads.refl h
  · rename_i valid
    split
    · exact Leads.refl h
    · rename_i p record
      split
      · split
        · have parked : (Task.adopt o (rebindRequest cfg p o.row)).Sound cfg pol.soles := sound
          exact (Act.park parked).leads
        · exact Leads.refl h
      · rename_i agrees
        simp only [Bool.not_eq_true, Bool.not_eq_false', ne_eq, not_not] at valid agrees
        exact count_leader_and_own_prepare_leads record agrees.symm sound
          (fun q => fits p q record valid agrees)

theorem repropose_as_leader_leads {h : Hub R} {rid : ℕ} (view : ℚ)
    (permit : ∀ p, h.rounds[rid]? = some p → pol.admits (commitsSigned h) p.matchId p.row) :
    Leads cfg pol h (reproposeAsLeader cfg h rid view) := by
  simp only [reproposeAsLeader]
  split
  · exact Leads.refl h
  · rename_i p record
    split
    · exact quiet_leads rfl rfl rfl rfl
    · rename_i canonical built
      have announced (g : Hub R) : Leads cfg pol g
          (((g.sign p.matchId (controlOf cfg cfg.engine.nvTag p.matchId view)).emit
            (.broadcast (.newView p.matchId (some view) cfg.pubkey
              (some (signControl cfg cfg.engine.nvTag p.matchId view))))).await
            (.lead rid false)) := by
        have control : (Output.signed p.matchId (controlOf cfg cfg.engine.nvTag p.matchId view) :
            Output R).Silent cfg := List.mem_cons_of_mem _ List.mem_cons_self
        have parked : (Task.lead rid false : Task R).Sound cfg pol.soles := trivial
        refine (say_leads control).trans ((say_leads ?_).trans (Act.park parked).leads)
        exact trivial
      refine Leads.trans ?_ (announced _)
      split
      · exact (Act.rebuild record built (permit p record)).leads
      · exact Leads.refl h

theorem maybe_assume_leadership_leads (env : Env) {h : Hub R} {id : String} {view : ℚ}
    (permit : ∀ rid p row, h.pendingRound id = some (rid, p) →
      reproposed cfg env p id view = some row → pol.admits (commitsSigned h) id row) :
    Leads cfg pol h (maybeAssumeLeadership cfg env h id view) := by
  refine leads_of_ready (fun ready => ?_)
  simp only [maybeAssumeLeadership]
  split
  · exact Leads.refl h
  · rename_i rid p held
    have named := ready.pending_named held
    have record := (pending_round_iff.mp held).2
    split
    · exact Leads.refl h
    · rename_i live
      split
      · exact Leads.refl h
      · rename_i votes counted
        split
        · exact Leads.refl h
        · rename_i met
          simp only [Bool.not_eq_true, Bool.not_eq_false'] at live met
          have raised : Leads cfg pol h (h.modify rid (Round.raiseView view)) :=
            (Act.mark rid (raise_view_votes view)).leads
          have same := raise_view_votes view p
          have stored : (h.modify rid (Round.raiseView view)).rounds[rid]? =
              some (p.raiseView view) := modify_round_same record
          split
          · exact raised
          · rename_i leads
            have proposed : ∀ row, reproposed cfg env p id view = some row →
                pol.admits (commitsSigned h) id row := fun row => permit rid p row held
            simp only [reproposed, counted, live, met, Bool.not_true, Bool.or_self,
              Bool.false_eq_true, if_false, if_neg leads] at proposed
            split
            · rename_i kept
              simp only [kept, Option.some.injEq, forall_eq'] at proposed
              refine raised.trans (repropose_as_leader_leads view (fun q found => ?_))
              rw [stored, Option.some.injEq] at found
              rw [← found, same.matchId, same.row, named]
              exact proposed
            · rename_i t stamped
              simp only [stamped, Option.some.injEq, forall_eq'] at proposed
              have restamped : Leads cfg pol (h.modify rid (Round.raiseView view)) _ :=
                (Act.restamp rid t).leads
              refine raised.trans (restamped.trans (repropose_as_leader_leads view
                (fun q found => ?_)))
              rw [modify_round_same stored, Option.some.injEq] at found
              rw [← found]
              simp only [Round.restamp, same.matchId, same.row, named]
              exact proposed
            · exact raised
            · have parked : (Task.margin id rid view env.nowSeconds : Task R).Sound cfg pol.soles :=
                trivial
              exact raised.trans (Act.park parked).leads

theorem add_view_vote_votes (view : ℚ) (key : String) (p : Round R) :
    p.SameVotes (p.addViewVote view key) :=
  ⟨rfl, rfl, rfl, rfl, rfl, rfl, rfl, rfl, rfl⟩

theorem next_view_votes (p : Round R) : p.SameVotes (p.nextView cfg) :=
  ⟨rfl, rfl, rfl, rfl, rfl, rfl, rfl, rfl, rfl⟩

theorem set_view_votes (view : ℚ) (p : Round R) : p.SameVotes (p.setView view) :=
  ⟨rfl, rfl, rfl, rfl, rfl, rfl, rfl, rfl, rfl⟩

theorem initiate_view_change_leads (env : Env) {h : Hub R} {id : String}
    (permit : ∀ rid p row, h.pendingRound id = some (rid, p) →
      reproposed cfg env (p.nextView cfg) id (p.view + 1) = some row →
      pol.admits (commitsSigned h) id row) :
    Leads cfg pol h (initiateViewChange cfg env h id) := by
  simp only [initiateViewChange]
  split
  · exact Leads.refl h
  · rename_i rid p held
    split
    · exact Leads.refl h
    · have moved : Leads cfg pol h (h.modify rid (Round.nextView cfg)) :=
        (Act.mark rid next_view_votes).leads
      have control : (Output.signed id (controlOf cfg cfg.engine.vcTag id (p.view + 1)) :
          Output R).Silent cfg := List.mem_cons_self
      have spoken : (Output.broadcast (.viewChange id (some (p.view + 1)) cfg.pubkey
          (some (signControl cfg cfg.engine.vcTag id (p.view + 1)))) : Output R).Silent cfg :=
        trivial
      refine moved.trans ((say_leads control).trans ((say_leads spoken).trans
        (maybe_assume_leadership_leads env (fun other q row found proposed => ?_))))
      rw [commits_signed_silent spoken, commits_signed_silent control, commits_signed_modify]
      rw [emit_pending_round, emit_pending_round, modify_pending_round held, Option.some.injEq,
        Prod.mk.injEq] at found
      obtain ⟨-, rfl⟩ := found
      exact permit rid p row held proposed

theorem handle_view_change_leads (env : Env) {h : Hub R} {matchId sigPubkey : String}
    {view : Option ℚ} {sig : Option String}
    (permit : ∀ row, reproposedOnVote cfg env h (cfg.toLowerCase matchId) view sigPubkey sig =
      some row → pol.admits (commitsSigned h) (cfg.toLowerCase matchId) row) (m : Message R) :
    Leads cfg pol h (handleViewChange cfg env h m matchId view sigPubkey sig) := by
  simp only [handleViewChange]
  split
  · exact Leads.refl h
  · split
    · split
      · exact Leads.refl h
      · exact say_leads trivial
    · split
      · exact buffer_leads env h _ m
      · rename_i rid p held
        split
        · exact Leads.refl h
        · rename_i view
          split
          · exact Leads.refl h
          · rename_i member
            split
            · exact Leads.refl h
            · rename_i verified
              simp only [Bool.not_eq_true, Bool.not_eq_false'] at member verified
              have voted : Leads cfg pol h _ :=
                (Act.mark rid (add_view_vote_votes view (cfg.toLowerCase sigPubkey))).leads
              refine voted.trans (maybe_assume_leadership_leads env
                (fun other q row found proposed => ?_))
              rw [modify_pending_round held, Option.some.injEq, Prod.mk.injEq] at found
              obtain ⟨-, rfl⟩ := found
              exact permit row (by simp [reproposedOnVote, held, member, verified, proposed])

theorem handle_new_view_leads (env : Env) (h : Hub R) (m : Message R) (matchId : String)
    (view : Option ℚ) (sigPubkey : String) (sig : Option String) :
    Leads cfg pol h (handleNewView cfg env h m matchId view sigPubkey sig) := by
  simp only [handleNewView]
  split
  · exact Leads.refl h
  · split
    · exact buffer_leads env h _ m
    · rename_i rid p held
      split
      · exact Leads.refl h
      · rename_i view
        split
        · exact Leads.refl h
        · split
          · exact Leads.refl h
          · split
            · exact Leads.refl h
            · split
              · exact Leads.refl h
              · split
                · exact (Act.mark rid (set_view_votes view)).leads
                · exact Leads.refl h

theorem margin_settled_leads (h : Hub R) (id : String) (rid : ℕ) (view currentSecond : ℚ)
    (margin : Option ℚ) :
    Leads cfg pol h (marginSettled cfg h id rid view currentSecond margin) := by
  have parked (g : Hub R) (ok : Bool) : Leads cfg pol g (g.await (.restamped id rid view ok)) := by
    have sound : (Task.restamped id rid view ok : Task R).Sound cfg pol.soles := trivial
    exact (Act.park sound).leads
  simp only [marginSettled]
  split
  · exact parked h false
  · rename_i t stamped
    have restamped : Leads cfg pol h _ := (Act.restamp rid t).leads
    exact restamped.trans (parked _ true)

theorem restamp_settled_leads {h : Hub R} {id : String} {rid : ℕ} {view : ℚ} {ok : Bool}
    (permit : ∀ p, h.pendingRound id = some (rid, p) → ok = true → p.finalized = false →
      p.view = view → pol.admits (commitsSigned h) id p.row) :
    Leads cfg pol h (restampSettled cfg h id rid view ok) := by
  refine leads_of_ready (fun ready => ?_)
  simp only [restampSettled]
  split
  · exact Leads.refl h
  · rename_i stamped
    split
    · exact Leads.refl h
    · rename_i held p pending
      split
      · exact Leads.refl h
      · rename_i same
        simp only [ne_eq, Bool.or_eq_true, decide_eq_true_eq, not_or, not_not,
          Bool.not_eq_true, Bool.not_eq_false'] at same stamped
        obtain ⟨⟨rfl, live⟩, view_eq⟩ := same
        have record := (pending_round_iff.mp pending).2
        refine repropose_as_leader_leads view (fun q found => ?_)
        rw [record, Option.some.injEq] at found
        subst found
        rw [ready.pending_named pending]
        exact permit p pending stamped live view_eq

theorem handle_final_sync_leads (h : Hub R) (matchId : String) (row : Option R)
    (signatures : List (String × String)) (view : Option ℚ) :
    Leads cfg pol h (handleFinalSync cfg h matchId row signatures view) := by
  simp only [handleFinalSync]
  split
  · exact Leads.refl h
  · split
    · rename_i rid p row held
      split
      · exact Leads.refl h
      · split
        · exact Leads.refl h
        · rename_i named
          split
          · exact Leads.refl h
          · rename_i canonical built
            have sound : (Task.sync ⟨cfg.toLowerCase matchId, rid, row, view.getD 0, canonical,
                signatures⟩ (rebindRequest cfg p row)).Sound cfg pol.soles :=
              ⟨built, by simpa using named⟩
            exact (Act.park sound).leads
    · exact Leads.refl h

theorem sync_rebound_leads {h : Hub R} {s : Sync R} {rebind : Rebind} {reply : Option Snapshot}
    (sound : s.Sound cfg)
    (bound : ∀ b, (rebindSnapshot cfg rebind reply).join = some b → pol.binds b)
    (synced : ∀ b p verified, rebindSnapshot cfg rebind reply = some b →
      stillPending h s.matchId s.rid = some p →
      verifiedSyncSignatures cfg s.canonical s.signatures (b.getD p.binding) = some verified →
      pol.synced s.matchId s.row) :
    Leads cfg pol h (syncRebound cfg h s (rebindSnapshot cfg rebind reply)) := by
  simp only [syncRebound]
  split
  · rename_i b p rebound live
    obtain ⟨held, fresh⟩ := still_pending_held live
    split
    · exact Leads.refl h
    · rename_i verified proof
      have origin : b.getD p.binding = p.binding ∨ Rebound cfg pol (b.getD p.binding) := by
        cases b with
        | none => exact Or.inl rfl
        | some b => exact Or.inr (rebind_snapshot_bound rebound bound b rfl)
      have act : Act cfg pol h _ := Act.catchUp held fresh sound origin proof
        (synced b p verified rebound live proof)
      have caught := modify_pending_round (f := Round.catchUp s (b.getD p.binding) verified) held
      have same : finalize cfg (h.modify s.rid (Round.catchUp s (b.getD p.binding) verified))
          s.matchId = finalizedAs cfg (h.modify s.rid
            (Round.catchUp s (b.getD p.binding) verified)) s.matchId s.rid
            (p.catchUp s (b.getD p.binding) verified) := by
        have open_still : (p.catchUp s (b.getD p.binding) verified).finalized = false := fresh
        simp only [finalize, caught, open_still, Bool.false_eq_true, if_false]
        rfl
      rw [same]
      exact act.leads
  · exact Leads.refl h

theorem propose_leads (env : Env) {h : Hub R} {matchId : String} {row : R} {snapshot : Snapshot}
    (soles : (bindingOf cfg snapshot.rows (cfg.engine.stakeWeightedActive row)).quorum = 0 →
      pol.soles)
    (names : pol.names (cfg.toLowerCase matchId) row)
    (bound : pol.binds (bindingOf cfg snapshot.rows (cfg.engine.stakeWeightedActive row)))
    (permit : opens cfg h matchId row snapshot = true →
      pol.admits (commitsSigned h) (cfg.toLowerCase matchId) row) :
    Leads cfg pol h (propose cfg env h matchId row snapshot) := by
  simp only [propose]
  split
  · exact Leads.refl h
  · rename_i unfinished
    split
    · exact Leads.refl h
    · rename_i free
      split
      · exact say_leads trivial
      · rename_i whole
        split
        · exact Leads.refl h
        · rename_i canonical built
          have rebound : Rebound cfg pol
              (bindingOf cfg snapshot.rows (cfg.engine.stakeWeightedActive row)) :=
            ⟨binding_of_lowered _ _, bound⟩
          simp only [Bool.not_eq_true] at free whole
          split
          · rename_i single
            split
            · rename_i self
              have allowed := permit (by simp [opens, unfinished, free, whole, self])
              have opened : Leads cfg pol h _ := (Act.open (p := openedRound env
                (cfg.toLowerCase matchId) row canonical (bindingOf cfg snapshot.rows
                  (cfg.engine.stakeWeightedActive row))) ⟨built, rfl, rfl, rfl, rfl, rfl⟩ rebound
                names allowed).leads
              have parked : (Task.sole (cfg.toLowerCase matchId) h.rounds.length canonical :
                Task R).Sound cfg pol.soles := ⟨soles single, row, 0, built⟩
              exact opened.trans (Act.park parked).leads
            · exact say_leads trivial
          · rename_i plural
            have allowed := permit (by
              simp only [openedRound] at plural
              simp [opens, unfinished, free, whole, plural])
            have opened : Leads cfg pol h _ := (Act.open (p := (openedRound env
              (cfg.toLowerCase matchId) row canonical (bindingOf cfg snapshot.rows
                (cfg.engine.stakeWeightedActive row))).armTimer) ⟨built, rfl, rfl, rfl, rfl, rfl⟩
              rebound names allowed).leads
            split
            · have parked : (Task.lead h.rounds.length true : Task R).Sound cfg pol.soles := trivial
              exact opened.trans (Act.park parked).leads
            · exact opened.trans (drain_leads _ _)

theorem leader_persisted_leads (h : Hub R) (rid : ℕ) (drains : Bool) :
    Leads cfg pol h (leaderPersisted cfg h rid drains) := by
  refine leads_of_ready (fun ready => ?_)
  simp only [leaderPersisted]
  split
  · exact Leads.refl h
  · rename_i p record
    have cast : Leads cfg pol h _ := (Act.castOwn record).leads
    have signed : (Output.signed p.matchId (.artifact p.canonical) : Output R).Silent cfg :=
      ready.rooted p (List.mem_of_getElem? record)
    have spoken : (Output.broadcast (.propose p.matchId (some p.view) (some p.row) cfg.pubkey
        (some (cfg.sign p.canonical)))).Silent cfg := trivial
    have led := cast.trans ((say_leads signed).trans (say_leads spoken))
    split
    · have parked : (Task.drain p.matchId : Task R).Sound cfg pol.soles := trivial
      exact led.trans (Act.park parked).leads
    · exact led

/- The sole-operator settle meets its own round, unmoved since it was opened. -/
structure SoleClear (pol : Policy R) (h : Hub R) (id : String) (rid : ℕ) (canonical : String) :
    Prop where
  unmoved : ∀ p, h.rounds[rid]? = some p → p.finalized = false → p.canonical = canonical
  own : ∀ held p, h.pendingRound id = some (held, p) → p.finalized = false →
    held = rid ∧ p.SoleFits pol

theorem sole_persisted_leads {h : Hub R} {id : String} {rid : ℕ} {canonical : String}
    (sound : ∃ r v, cfg.engine.canonicalMatch r v = some canonical)
    (clear : SoleClear pol h id rid canonical) :
    Leads cfg pol h (solePersisted cfg h id rid canonical) := by
  simp only [solePersisted]
  cases record : h.rounds[rid]? with
  | none =>
    have idle : h.modify rid (Round.collect cfg.pubkey (cfg.sign canonical)) = h := by
      simp [Hub.modify, List.modify_eq_self (List.getElem?_eq_none_iff.mp record)]
    rw [idle]
    have signed : (Output.signed id (.artifact canonical) : Output R).Silent cfg := sound
    refine (say_leads signed).trans (finalize_leads (fun held p found live => ?_))
    obtain ⟨rfl, -⟩ := clear.own held p found live
    have stored : h.rounds[held]? = some p := (pending_round_iff.mp found).2
    exact absurd (record.symm.trans stored) (by simp)
  | some p =>
    have signed : (Output.signed id (.artifact canonical) : Output R).Silent cfg := sound
    have verified : p.finalized = false →
        cfg.verify p.canonical (cfg.sign canonical) cfg.pubkey = true := by
      intro live
      rw [clear.unmoved p record live]
      exact cfg.sign_verifies canonical
    have collected : Leads cfg pol h
        (h.modify rid (Round.collect cfg.pubkey (cfg.sign canonical))) :=
      (Act.collect record cfg.pubkey_lower verified).leads
    refine collected.trans ((say_leads signed).trans (finalize_leads (fun held q found live => ?_)))
    have sole : held = rid ∧ p.SoleFits pol ∧
        q = p.collect cfg.pubkey (cfg.sign canonical) := by
      obtain ⟨map, stored⟩ := pending_round_iff.mp found
      have before : ∀ other, h.rounds[held]? = some other → other.finalized = q.finalized →
          held = rid ∧ other.SoleFits pol := by
        intro other prior same
        exact clear.own held other (pending_round_iff.mpr ⟨map, prior⟩) (same.trans live)
      have image : (h.rounds[held]?.map (fun p =>
          if rid = held then p.collect cfg.pubkey (cfg.sign canonical) else p)) = some q := by
        rw [← modify_round]
        exact stored
      obtain ⟨other, prior, shape⟩ := Option.map_eq_some_iff.mp image
      have unchanged : other.finalized = q.finalized := by
        rw [← shape]
        split <;> rfl
      obtain ⟨rfl, fits⟩ := before other prior unchanged
      rw [record, Option.some.injEq] at prior
      subst prior
      exact ⟨rfl, fits, by rw [← shape, if_pos rfl]⟩
    obtain ⟨rfl, fits, rfl⟩ := sole
    refine Act.finalizeSole found live ?_ fits
    exact OrderedMap.mem_keys_set.mpr (Or.inl rfl)

theorem on_round_timeout_leads (env : Env) {h : Hub R} {id : String}
    (permit : ∀ row, installs cfg env h (.roundTimeout id) = some (id, row) →
      pol.admits (commitsSigned h) id row) :
    Leads cfg pol h (onRoundTimeout cfg env h id) := by
  simp only [onRoundTimeout]
  split
  · exact Leads.refl h
  · split
    · exact Leads.refl h
    · split
      · have forgotten : Leads cfg pol h (h.forget id) := (Act.forget id).leads
        exact forgotten.trans (say_leads trivial)
      · rename_i rid p held armed fresh
        refine initiate_view_change_leads env (fun other q row found proposed => permit row ?_)
        rw [held, Option.some.injEq, Prod.mk.injEq] at found
        obtain ⟨-, rfl⟩ := found
        simp only [Bool.or_eq_true, not_or, Bool.not_eq_true, Bool.not_eq_false'] at armed
        simp [installs, held, armed, fresh, proposed]

theorem evict_finalized_leads (h : Hub R) (rid : ℕ) :
    Leads cfg pol h (evictFinalized h rid) := by
  simp only [evictFinalized]
  split
  · exact Leads.refl h
  · split
    · exact (Act.forget _).leads
    · exact Leads.refl h

theorem forget_finalized_leads (h : Hub R) (matchId : String) :
    Leads cfg pol h (forgetFinalized cfg h matchId) := by
  have cleared : Leads cfg pol h ({ h with
      finalized := h.finalized.erase (cfg.toLowerCase matchId)
      finalizedRows := h.finalizedRows.erase (cfg.toLowerCase matchId) } : Hub R) :=
    quiet_leads rfl rfl rfl rfl
  exact cleared.trans (Act.forget _).leads

/- An event, due in h, respects the policy. -/
structure Obeys (cfg : Params R) (pol : Policy R) (env : Env) (h : Hub R) (e : Event R) : Prop where
  soles : ∀ matchId row snapshot, e = .propose matchId row snapshot →
    (bindingOf cfg snapshot.rows (cfg.engine.stakeWeightedActive row)).quorum = 0 → pol.soles
  names : ∀ matchId row snapshot, e = .propose matchId row snapshot →
    pol.names (cfg.toLowerCase matchId) row
  fits : ∀ p, finalizing cfg h e = some p → p.Fits pol
  admits : ∀ id row, installs cfg env h e = some (id, row) → pol.admits (commitsSigned h) id row
  bound : ∀ b, binds cfg h e = some b → pol.binds b
  synced : ∀ s, syncs cfg h e = some s → pol.synced s.matchId s.row
  sole : pol.soles → ∀ id rid canonical, settlesSole h e = some (id, rid, canonical) →
    SoleClear pol h id rid canonical
  heard : ∀ matchId view key sig s rid p, e = .deliver (.commit matchId view key sig (some s)) →
    h.pendingRound (cfg.toLowerCase matchId) = some (rid, p) →
    cfg.verify (commitPayload cfg.engine p.canonical) s (cfg.toLowerCase key) = true →
    pol.voted (cfg.toLowerCase key) p.canonical

theorem handle_message_leads {env : Env} {h : Hub R} {m : Message R}
    (obeys : Obeys cfg pol env h (.deliver m)) : Leads cfg pol h (handleMessage cfg env h m) := by
  cases m with
  | propose matchId view row sigPubkey sig => exact handle_propose_leads env h _ _ _ _ _ _
  | prepare matchId view sigPubkey sig =>
    exact handle_prepare_leads env view (fun p found => obeys.fits p found) _
  | commit matchId view sigPubkey sig commitSig =>
    refine handle_commit_leads env view (fun p found => obeys.fits p found) ?_ _
    rintro s rid p rfl held verified
    exact obeys.heard matchId view sigPubkey sig s rid p rfl held verified
  | viewChange matchId view sigPubkey sig =>
    refine handle_view_change_leads env (fun row proposed => ?_) _
    exact obeys.admits _ row (by simp [installs, proposed])
  | newView matchId view sigPubkey sig => exact handle_new_view_leads env h _ _ _ _ _
  | finalSync matchId row signatures view => exact handle_final_sync_leads h _ _ _ _

theorem task_member {h : Hub R} {tid : ℕ} {t : Task R} (found : h.task tid = some t) :
    some t ∈ h.tasks := by
  simp only [Hub.task, Option.join_eq_some_iff] at found
  exact List.mem_of_getElem? found

/- The events that settle the await tid. -/
inductive Settles (tid : ℕ) : Event R → Prop where
  | validated (ok : Bool) : Settles tid (.validated tid ok)
  | resolved (reply : Option Snapshot) : Settles tid (.resolved tid reply)
  | persisted : Settles tid (.persisted tid)
  | resumed : Settles tid (.resumed tid)
  | marginSettled (margin : Option ℚ) : Settles tid (.marginSettled tid margin)

theorem resume_leads {env : Env} {h : Hub R} {tid : ℕ} {e : Event R} (settles : Settles tid e)
    (obeys : Obeys cfg pol env h e) : Leads cfg pol h (resume cfg h tid e) := by
  refine leads_of_ready (fun ready => ?_)
  cases found : h.task tid with
  | none =>
    simp only [resume, found]
    exact Leads.refl h
  | some t =>
    have sound := ready.parked t (task_member found)
    have settled : Leads cfg pol h (h.settle tid) := settle_leads h tid
    cases settles with
    | validated ok =>
      cases t with
      | validate o =>
        simp only [resume, found]
        refine settled.trans
          (proposal_validated_leads sound (fun p q record valid agrees done => ?_))
        have prior : h.rounds[o.rid]? = some p := record
        exact obeys.fits q (by simp [finalizing, found, prior, agrees, valid, done])
      | _ => simp only [resume, found]; exact Leads.refl h
    | resolved reply =>
      cases t with
      | adopt o rebind =>
        simp only [resume, found]
        refine settled.trans (row_rebound_leads sound (fun b bound => ?_) (fun adopted took => ?_)
          (fun adopted q took done => ?_))
        · exact obeys.bound b (by simp [binds, found, bound])
        · exact obeys.admits _ _ (by simp [installs, found, took])
        · exact obeys.fits q (by simp [finalizing, found, took, done])
      | sync s rebind =>
        simp only [resume, found]
        refine settled.trans (sync_rebound_leads sound (fun b bound => ?_)
          (fun b p verified rebound live proof => ?_))
        · exact obeys.bound b (by simp [binds, found, bound])
        · exact obeys.synced s (by simp [syncs, found, rebound, live, proof])
      | _ => simp only [resume, found]; exact Leads.refl h
    | persisted =>
      cases t with
      | lead rid drains =>
        simp only [resume, found]
        exact settled.trans (leader_persisted_leads _ rid drains)
      | sole matchId rid canonical =>
        simp only [resume, found]
        have clear := obeys.sole sound.1 matchId rid canonical (by simp [settlesSole, found])
        exact settled.trans (sole_persisted_leads sound.2 ⟨clear.unmoved, clear.own⟩)
      | _ => simp only [resume, found]; exact Leads.refl h
    | resumed =>
      cases t with
      | drain matchId =>
        simp only [resume, found]
        exact settled.trans (drain_leads _ matchId)
      | restamped matchId rid view ok =>
        simp only [resume, found]
        refine settled.trans (restamp_settled_leads (fun p pending stamped live same => ?_))
        rw [settle_pending_round] at pending
        exact obeys.admits _ _ (by simp [installs, found, pending, stamped, live, same])
      | _ => simp only [resume, found]; exact Leads.refl h
    | marginSettled margin =>
      cases t with
      | margin matchId rid view currentSecond =>
        simp only [resume, found]
        exact settled.trans (margin_settled_leads _ matchId rid view currentSecond margin)
      | _ => simp only [resume, found]; exact Leads.refl h

theorem handle_event_leads {env : Env} {h : Hub R} {e : Event R}
    (obeys : Obeys cfg pol env h e) : Leads cfg pol h (handleEvent cfg env h e) := by
  cases e with
  | propose matchId row snapshot =>
    refine propose_leads env (obeys.soles matchId row snapshot rfl)
      (obeys.names matchId row snapshot rfl) (obeys.bound _ rfl) (fun opened => ?_)
    exact obeys.admits _ row (by simp [installs, opened])
  | deliver m => exact handle_message_leads obeys
  | replay => exact Leads.refl h
  | validated tid ok => exact resume_leads (.validated ok) obeys
  | resolved tid reply => exact resume_leads (.resolved reply) obeys
  | persisted tid => exact resume_leads .persisted obeys
  | resumed tid => exact resume_leads .resumed obeys
  | marginSettled tid margin => exact resume_leads (.marginSettled margin) obeys
  | roundTimeout matchId =>
    exact on_round_timeout_leads env (fun row installed => obeys.admits matchId row installed)
  | cleanup rid => exact evict_finalized_leads h rid
  | forgetFinalized matchId => exact forget_finalized_leads h matchId

/-- One step whose event respects the policy is a sequence of actions. -/
theorem step_leads {h : Hub R} {m : Env × Event R}
    (obeys : ∀ e, due h m.2 = some e → Obeys cfg pol m.1 h.shift e) :
    Leads cfg pol h (step cfg h m) := by
  simp only [step]
  split
  · exact Leads.refl h
  · rename_i e found
    have shifted : Leads cfg pol h h.shift := quiet_leads rfl rfl rfl rfl
    exact shifted.trans (handle_event_leads (obeys e found))

theorem acts_keep (inv : Hub R → Prop)
    (act : ∀ a b, Ready cfg pol.soles a → Act cfg pol a b → inv a → inv b) {h after : Hub R}
    (ready : Ready cfg pol.soles h) (start : inv h)
    (path : Relation.ReflTransGen (Act cfg pol) h after) : inv after := by
  have both : Ready cfg pol.soles after ∧ inv after := by
    induction path with
    | refl => exact ⟨ready, start⟩
    | tail _ last ih => exact ⟨act_ready ih.1 last, act _ _ ih.1 last ih.2⟩
  exact both.2

/-- What every action keeps, a step that respects the policy keeps. -/
theorem step_keeps (inv : Hub R → Prop)
    (act : ∀ a b, Ready cfg pol.soles a → Act cfg pol a b → inv a → inv b) {h : Hub R}
    {m : Env × Event R}
    (obeys : ∀ e, due h m.2 = some e → Obeys cfg pol m.1 h.shift e)
    (start : Ready cfg pol.soles h ∧ inv h) :
    Ready cfg pol.soles (step cfg h m) ∧ inv (step cfg h m) := by
  obtain ⟨path, after⟩ := step_leads obeys start.1
  exact ⟨after, acts_keep inv act start.1 start.2 path⟩

theorem started_ready {soles : Prop} : Ready cfg soles (Hub.started : Hub R) := by
  refine ⟨?_, ?_, ?_⟩
  · intro id rid found
    exact absurd found (by simp [Hub.started])
  · intro p member
    exact absurd member (by simp [Hub.started])
  · intro t member
    exact absurd member (by simp [Hub.started])

end

end XChainHub.CrossChain
