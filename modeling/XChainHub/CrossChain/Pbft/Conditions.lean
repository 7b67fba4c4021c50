import XChainHub.CrossChain.Pbft.Handlers

/-!
What one event is about to do to a hub, read off the state before it with the
code's own predicates: the round whose commit quorum it completes, the row it
puts in place, the membership it binds, the proof it adopts. Conditions on a run
are stated over these.
-/
namespace XChainHub.CrossChain
open StakeWeightedQuorum (Snapshot)

variable {R : Type} (cfg : Params R)

def prepareCompletes (p : Round R) : Bool :=
  !p.finalized && !p.commitSent && meetsQuorum cfg p.binding p.prepares &&
    meetsQuorum cfg p.binding (p.sendCommit cfg).commits

def commitCompletes (p : Round R) : Bool := !p.finalized && meetsQuorum cfg p.binding p.commits

/- Votes are tested with the message's own vote counted. -/
def completedByMessage (h : Hub R) : Message R → Option (Round R)
  | .prepare matchId _ sigPubkey (some sig) =>
    match h.pendingRound (cfg.toLowerCase matchId) with
    | none => none
    | some (_, p) =>
      let sender := cfg.toLowerCase sigPubkey
      let counted := p.countPrepare sender sig
      if p.binding.isMember sender && cfg.verify p.canonical sig sender &&
          prepareCompletes cfg counted then some counted else none
  | .commit matchId _ sigPubkey (some sig) commitSig =>
    match h.pendingRound (cfg.toLowerCase matchId) with
    | none => none
    | some (_, p) =>
      let sender := cfg.toLowerCase sigPubkey
      let counted := p.countCommit sender sig
      if p.binding.isMember sender && cfg.verify p.canonical sig sender &&
          verifies cfg (commitPayload cfg.engine p.canonical) commitSig sender &&
          commitCompletes cfg counted then some counted else none
  | _ => none

def completedByOffer (h : Hub R) (o : Offer R) : Option (Round R) :=
  match (h.modify o.rid (Round.countProposal cfg o)).pendingRound o.matchId with
  | none => none
  | some (_, p) => if prepareCompletes cfg p then some p else none

/- The round a vote or a proposal finalizes, as it is when its quorum is tested. -/
def finalizing (h : Hub R) (e : Event R) : Option (Round R) :=
  match e with
  | .deliver m => completedByMessage cfg h m
  | .validated tid ok =>
    match h.task tid with
    | some (.validate o) =>
      match h.rounds[o.rid]? with
      | some p =>
        if ok && o.canonical = p.canonical then completedByOffer cfg (h.settle tid) o else none
      | none => none
    | _ => none
  | .resolved tid reply =>
    match h.task tid with
    | some (.adopt o rebind) =>
      (adoptLeaderRow (h.settle tid) o (rebindSnapshot cfg rebind reply)).bind
        (fun adopted => completedByOffer cfg adopted o)
    | _ => none
  | _ => none

/- The row this hub re-proposes at once as the leader of view. -/
def reproposed (env : Env) (p : Round R) (matchId : String) (view : ℚ) : Option R :=
  match p.viewChanges.get view with
  | none => none
  | some votes =>
    if p.finalized || !meetsQuorum cfg p.binding votes then none
    else if leaderFor cfg matchId p.binding.validators view ≠ some cfg.pubkey then none
    else
      match restampEffectiveTime cfg env p with
      | .none => some p.row
      | .applied t => some (cfg.engine.setEffectiveTime p.row t)
      | _ => none

def reproposedOnVote (env : Env) (h : Hub R) (id : String) (view : Option ℚ) (sigPubkey : String)
    (sig : Option String) : Option R :=
  match h.pendingRound id, view with
  | some (_, p), some view =>
    let voter := cfg.toLowerCase sigPubkey
    if p.binding.isMember voter &&
        verifies cfg ((controlOf cfg cfg.engine.vcTag id view).bytes cfg.engine) sig voter then
      reproposed cfg env (p.addViewVote view voter) id view
    else none
  | _, _ => none

def opens (h : Hub R) (matchId : String) (row : R) (snapshot : Snapshot) : Bool :=
  let id := cfg.toLowerCase matchId
  id ∉ h.finalized && !h.pending.has id &&
    !(cfg.engine.stakeWeightedActive row && snapshot.truncated) &&
    ((bindingOf cfg snapshot.rows (cfg.engine.stakeWeightedActive row)).quorum ≠ 0 ||
      snapshot.rows.map (fun v => cfg.toLowerCase v.pubkey) = [cfg.pubkey])

/- The row an event makes a round's signed value: opening, adopting or re-proposing. -/
def installs (env : Env) (h : Hub R) (e : Event R) : Option (String × R) :=
  match e with
  | .propose matchId row snapshot =>
    if opens cfg h matchId row snapshot then some (cfg.toLowerCase matchId, row) else none
  | .resolved tid reply =>
    match h.task tid with
    | some (.adopt o rebind) =>
      (adoptLeaderRow (h.settle tid) o (rebindSnapshot cfg rebind reply)).map
        (fun _ => (o.matchId, o.row))
    | _ => none
  | .deliver (.viewChange matchId view sigPubkey sig) =>
    let id := cfg.toLowerCase matchId
    (reproposedOnVote cfg env h id view sigPubkey sig).map (fun row => (id, row))
  | .roundTimeout matchId =>
    match h.pendingRound matchId with
    | some (_, p) =>
      if !p.timer || cfg.roundMaxLifetimeMs < env.now - p.startedAt then none
      else
        (reproposed cfg env (p.nextView cfg) matchId (p.view + 1)).map (fun row => (matchId, row))
    | none => none
  | .resumed tid =>
    match h.task tid with
    | some (.restamped matchId rid view ok) =>
      match h.pendingRound matchId with
      | some (held, p) =>
        if ok && held = rid && !p.finalized && p.view = view then some (matchId, p.row) else none
      | none => none
    | _ => none
  | _ => none

def binds (h : Hub R) (e : Event R) : Option Binding :=
  match e with
  | .propose _ row snapshot =>
    some (bindingOf cfg snapshot.rows (cfg.engine.stakeWeightedActive row))
  | .resolved tid reply =>
    match h.task tid with
    | some (.adopt _ rebind) => (rebindSnapshot cfg rebind reply).join
    | some (.sync _ rebind) => (rebindSnapshot cfg rebind reply).join
    | _ => none
  | _ => none

/- The FINAL_SYNC proof an event adopts. -/
def syncs (h : Hub R) (e : Event R) : Option (Sync R) :=
  match e with
  | .resolved tid reply =>
    match h.task tid with
    | some (.sync s rebind) =>
      match rebindSnapshot cfg rebind reply, stillPending (h.settle tid) s.matchId s.rid with
      | some rebound, some p =>
        (verifiedSyncSignatures cfg s.canonical s.signatures (rebound.getD p.binding)).map
          (fun _ => s)
      | _, _ => none
    | _ => none
  | _ => none

/- The sole-operator round an event settles, with the canonical it was opened over. -/
def settlesSole (h : Hub R) (e : Event R) : Option (String × ℕ × String) :=
  match e with
  | .persisted tid =>
    match h.task tid with
    | some (.sole matchId rid canonical) => some (matchId, rid, canonical)
    | _ => none
  | _ => none

end XChainHub.CrossChain
