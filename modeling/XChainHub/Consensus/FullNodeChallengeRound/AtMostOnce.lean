import XChainHub.Consensus.FullNodeChallengeRound.Rounds

/-!
The fee of an epoch's verdict is paid at most once while every verdict intent starts a line
of its own and no round is made for an epoch whose broadcast is still in flight.
-/
namespace XChainHub.FullNodeChallengeRound
open PaidLog TornLog IdempotentBroadcast GuardedRuns

section Armed
variable {outcome : OrderedMap ℕ Outcome} {rec : Record} {e : ℕ}

def Committed (e : ℕ) (outcome : OrderedMap ℕ Outcome) : Prop :=
  ∃ o, outcome.get e = some o ∧ spent o = true

theorem fold_keeps (held : Committed e outcome) (calm : rec.epoch = e → rec.phase ≠ .failed) :
    Committed e (foldRecord outcome rec) := by
  obtain ⟨o, found, counts⟩ := held
  by_cases same : rec.epoch = e
  · cases phase : rec.phase with
    | failed => exact absurd phase (calm same)
    | sent => exact ⟨.sent, by simp [foldRecord, phase, same], rfl⟩
    | ambiguous => exact ⟨.sent, by simp [foldRecord, phase, same], rfl⟩
    | intent =>
      simp only [foldRecord, phase]
      split
      · exact ⟨o, found, counts⟩
      · exact ⟨.intent, by simp [same], rfl⟩
  · have other : ∀ o', (outcome.set rec.epoch o').get e = some o := by
      intro o'
      rw [OrderedMap.get_set_other (Ne.symm same)]
      exact found
    refine ⟨o, ?_, counts⟩
    unfold foldRecord
    split
    · exact other _
    · exact other _
    · split
      · exact found
      · exact other _
    · split
      · exact found
      · exact other _

theorem intent_commits : Committed e (foldRecord outcome ⟨.intent, e⟩) := by
  simp only [foldRecord]
  split
  · rename_i sent
    exact ⟨.sent, sent, rfl⟩
  · exact ⟨.intent, by simp, rfl⟩

/- Whatever a later append does to the tail, the next process counts the epoch as paid. -/
def Armed (log : TornLog.Log Record) (e : ℕ) : Prop :=
  Settled foldRecord (Committed e) OrderedMap.empty log

theorem Armed.put {log : TornLog.Log Record} (armed : Armed log e)
    (calm : rec.epoch = e → rec.phase ≠ .failed) (left : Left) : Armed (log.put rec left) e :=
  Settled.put armed (fun _ held => fold_keeps held calm) left

theorem armed_by_intent {log : TornLog.Log Record} (closed : log.tail = none) :
    Armed (log.put ⟨.intent, e⟩ .whole) e :=
  settled_put_whole closed (fun _ => intent_commits)

theorem Armed.loaded {log : TornLog.Log Record} (armed : Armed log e) : e ∈ loadSpendLog log := by
  obtain ⟨o, found, counts⟩ := armed.records
  rw [loadSpendLog, OrderedSet.mem_of_list, List.mem_map]
  exact ⟨(e, o), List.mem_filter.mpr ⟨OrderedMap.mem_of_get found, counts⟩, rfl⟩

end Armed

/- No epoch is paid twice, and what the hub and its disk know of the payments so far. -/
structure Safe (h : Hub) : Prop where
  once : PaidOnce h.log
  flights : UnderWay h.log (inFlight h)
  known : ∀ e, status h.log e = .spent → e ∈ h.committedEpochs
  claimed : ∀ e ∈ inFlight h, ∀ st, h.rounds.get e = some st → st.finalized = true
  durable : ∀ e, status h.log e ≠ .idle → Armed h.spendLog e

def Leaves (P : Hub → Prop) : Turn Hub → Prop
  | .ok h => P h
  | .error h => P h

section Alter
variable {h : Hub} {epoch made : ℕ} {f : Round → Round}

theorem alter_same : (h.alter epoch made f).log = h.log ∧ (h.alter epoch made f).sends = h.sends ∧
    (h.alter epoch made f).committedEpochs = h.committedEpochs ∧
    (h.alter epoch made f).spendLog = h.spendLog := by
  unfold Hub.alter
  split
  · exact ⟨rfl, rfl, rfl, rfl⟩
  · split <;> exact ⟨rfl, rfl, rfl, rfl⟩

@[simp] theorem alter_log : (h.alter epoch made f).log = h.log := alter_same.1

@[simp] theorem alter_sends : (h.alter epoch made f).sends = h.sends := alter_same.2.1

@[simp] theorem alter_committed : (h.alter epoch made f).committedEpochs = h.committedEpochs :=
  alter_same.2.2.1

@[simp] theorem alter_spend_log : (h.alter epoch made f).spendLog = h.spendLog := alter_same.2.2.2

@[simp] theorem alter_in_flight : inFlight (h.alter epoch made f) = inFlight h := by
  rw [inFlight, alter_sends, inFlight]

theorem alter_get {e : ℕ} {st : Round} (found : (h.alter epoch made f).rounds.get e = some st) :
    h.rounds.get e = some st ∨
      e = epoch ∧ ∃ old, h.rounds.get epoch = some old ∧ old.made = made ∧ st = f old := by
  unfold Hub.alter at found
  split at found
  · exact Or.inl found
  · rename_i old stored
    split at found
    · rename_i own
      by_cases same : e = epoch
      · rw [same, OrderedMap.get_set_same] at found
        exact Or.inr ⟨same, old, stored, own, (Option.some.inj found).symm⟩
      · rw [OrderedMap.get_set_other same] at found
        exact Or.inl found
    · exact Or.inl found

theorem claim_get {st : Round} (stored : h.rounds.get epoch = some st) {now : Round}
    (found : (h.claim epoch st.made).rounds.get epoch = some now) : now.finalized = true := by
  rw [Hub.claim, Hub.alter, stored] at found
  simp only [if_true, OrderedMap.get_set_same, Option.some.injEq] at found
  rw [← found]

end Alter

section Laws
variable {cfg : Params} {h : Hub} {epoch made : ℕ}

theorem Safe.of_rounds (safe : Safe h) {h' : Hub} (log : h'.log = h.log) (sends : h'.sends = h.sends)
    (committed : h'.committedEpochs = h.committedEpochs) (spendLog : h'.spendLog = h.spendLog)
    (claimed : ∀ e ∈ inFlight h, ∀ st, h'.rounds.get e = some st → st.finalized = true) :
    Safe h' := by
  have flights : inFlight h' = inFlight h := by rw [inFlight, sends, inFlight]
  refine ⟨by rw [log]; exact safe.once, by rw [log, flights]; exact safe.flights, ?_, ?_, ?_⟩
  · rw [log, committed]
    exact safe.known
  · rw [flights]
    exact claimed
  · rw [log, spendLog]
    exact safe.durable

/-- A write that does not clear the flag of a finalized round. -/
theorem Safe.alter (safe : Safe h) {f : Round → Round}
    (keeps : ∀ st, st.finalized = true → (f st).finalized = true) : Safe (h.alter epoch made f) := by
  refine safe.of_rounds alter_log alter_sends alter_committed alter_spend_log ?_
  intro e flying st found
  rcases alter_get found with old | ⟨rfl, old, stored, -, rfl⟩
  · exact safe.claimed e flying st old
  · exact keeps old (safe.claimed _ flying old stored)

theorem Safe.claim (safe : Safe h) : Safe (h.claim epoch made) := safe.alter (fun _ _ => rfl)

theorem Safe.unclaim (safe : Safe h) (idle : epoch ∉ inFlight h) : Safe (h.unclaim epoch made) := by
  refine safe.of_rounds alter_log alter_sends alter_committed alter_spend_log ?_
  intro e flying st found
  rcases alter_get found with old | ⟨rfl, -⟩
  · exact safe.claimed e flying st old
  · exact absurd flying idle

theorem Safe.erase (safe : Safe h) : Safe { h with rounds := h.rounds.erase epoch } := by
  refine safe.of_rounds rfl rfl rfl rfl ?_
  intro e flying st found
  by_cases same : e = epoch
  · simp [same] at found
  · rw [OrderedMap.get_erase_other same] at found
    exact safe.claimed e flying st found

theorem Safe.set (safe : Safe h) (idle : epoch ∉ inFlight h) (st : Round) :
    Safe { h with rounds := h.rounds.set epoch st } := by
  refine safe.of_rounds rfl rfl rfl rfl ?_
  intro e flying st' found
  by_cases same : e = epoch
  · exact absurd (same ▸ flying) idle
  · rw [OrderedMap.get_set_other same] at found
    exact safe.claimed e flying st' found

theorem Safe.ticking (safe : Safe h) (stage : Option Ticking) : Safe { h with ticking := stage } :=
  safe.of_rounds rfl rfl rfl rfl safe.claimed

theorem Safe.requests (safe : Safe h) (requests : List (Option Request)) :
    Safe { h with requests := requests } :=
  safe.of_rounds rfl rfl rfl rfl safe.claimed

theorem Safe.counted (safe : Safe h) (n : ℕ) : Safe { h with made := n } :=
  safe.of_rounds rfl rfl rfl rfl safe.claimed

/-- A record may be appended unless it clears an intent under way or a paid epoch. -/
theorem Safe.put (safe : Safe h) {rec : Record}
    (calm : status h.log rec.epoch ≠ .idle → rec.phase ≠ .failed) (left : Left) :
    Safe { h with spendLog := h.spendLog.put rec left } := by
  refine ⟨safe.once, safe.flights, safe.known, safe.claimed, ?_⟩
  intro e active
  exact (safe.durable e active).put (fun same => calm (same ▸ active)) left

theorem Safe.record (safe : Safe h) {rec : Record}
    (calm : status h.log rec.epoch ≠ .idle → rec.phase ≠ .failed) (append : Append) {k : Hub × Bool → Turn Hub}
    (goes : ∀ left durable, Leaves Safe (k ({ h with spendLog := h.spendLog.put rec left }, durable))) :
    Leaves Safe (recordSpend h rec append >>= k) := by
  cases append with
  | written => exact goes .whole true
  | refused left => exact goes left false
  | died left => exact safe.put calm left

/-- The next process: what was in flight is cut off, and the log on disk names it. -/
theorem Safe.restart (safe : Safe h) : Safe (restart h) := by
  refine ⟨paid_once_cut safe.once _, ?_, ?_, ?_, ?_⟩
  · exact safe.flights.cut
  · intro e spent
    refine Armed.loaded (safe.durable e ?_)
    rcases status_cut spent with flying | paid
    · rw [(safe.flights.running e).mpr flying]
      simp
    · rw [paid]
      simp
  · intro e flying
    exact absurd flying (by simp [inFlight, Hub.started, FullNodeChallengeRound.restart, occupied])
  · intro e active
    exact safe.durable e (safe.flights.active_cut active)

/-- The intent on a line of its own, and the broadcast it gates. -/
theorem Safe.begin (safe : Safe h) (fresh : status h.log epoch = .idle)
    (closed : h.spendLog.tail = none) (claimed : ∀ st, h.rounds.get epoch = some st → st.finalized = true) :
    Safe { h with
      spendLog := h.spendLog.put ⟨.intent, epoch⟩ .whole
      sends := h.sends ++ [some ⟨epoch, made⟩]
      log := .begun epoch :: h.log } := by
  have flying : inFlight { h with sends := h.sends ++ [some ⟨epoch, made⟩] } = inFlight h ++ [epoch] := by
    simp [inFlight, occupied_append]
  have grounded : epoch ∉ inFlight h := by
    intro member
    rw [(safe.flights.running epoch).mpr member] at fresh
    exact absurd fresh (by simp)
  refine ⟨⟨fresh, safe.once⟩, ?_, ?_, ?_, ?_⟩
  · exact flying ▸ safe.flights.begin grounded
  · intro e spent
    by_cases same : epoch = e
    · simp [status, same, Mark.key, Mark.leaves] at spent
    · rw [status_other (m := .begun epoch) same] at spent
      exact safe.known e spent
  · intro e member st found
    rcases List.mem_append.mp (flying ▸ member) with old | new
    · exact safe.claimed e old st found
    · rw [List.mem_singleton] at new
      exact claimed st (new ▸ found)
  · intro e active
    by_cases same : epoch = e
    · exact same ▸ armed_by_intent closed
    · rw [status_other (m := .begun epoch) same] at active
      exact (safe.durable e active).put (fun own => absurd own same) .whole

/-- A broadcast that settles, with the mark its outcome leaves. -/
theorem Safe.settle (safe : Safe h) {n : ℕ} {send : Send} (held : h.sends[n]?.join = some send)
    {m : Mark ℕ} (own : m.key = send.epoch) (allowed : m.Allowed h.log) (ends : m.leaves ≠ .running)
    {committed : OrderedSet ℕ} (grown : ∀ e ∈ h.committedEpochs, e ∈ committed)
    (paid : m.leaves = .spent → send.epoch ∈ committed) :
    Safe { h with sends := h.sends.set n none, committedEpochs := committed, log := m :: h.log } := by
  obtain ⟨front, back, before, after⟩ := occupied_clear held
  have flying : inFlight h = front.map Send.epoch ++ m.key :: back.map Send.epoch := by
    simp [inFlight, before, own]
  have left : inFlight { h with sends := h.sends.set n none } =
      front.map Send.epoch ++ back.map Send.epoch := by
    simp [inFlight, after]
  have grounded : ∀ e ∈ inFlight { h with sends := h.sends.set n none }, e ∈ inFlight h := by
    intro e member
    rw [left, List.mem_append] at member
    rw [flying, List.mem_append, List.mem_cons]
    exact member.imp_right Or.inr
  refine ⟨⟨allowed, safe.once⟩, ?_, ?_, ?_, ?_⟩
  · have finished := UnderWay.finish (flying ▸ safe.flights) ends
    exact left ▸ finished
  · intro e spent
    by_cases same : m.key = e
    · rw [← same, status_same] at spent
      exact same ▸ own ▸ paid spent
    · rw [status_other same] at spent
      exact grown e (safe.known e spent)
  · intro e member st found
    exact safe.claimed e (grounded e member) st found
  · intro e active
    refine safe.durable e ?_
    by_cases same : m.key = e
    · rw [(safe.flights.running e).mpr (by rw [flying, ← same]; simp)]
      simp
    · rw [status_other same] at active
      exact active

end Laws

section Condition
variable (cfg : Params)

/- Whether maybeFinalize goes as far as the intent: the round is live with a list, its fee is
   not known to be paid, and nothing refuses the spend. -/
def intends (gate : Gate) (h : Hub) (epoch : ℕ) : Bool :=
  (h.rounds.get epoch).any (fun st =>
    !st.finalized && st.passList.isSome && !(epoch ∈ h.committedEpochs) && verdictAllowed cfg gate st)

/- An intent that is reported written starts a line of its own. -/
def OwnLine (gate : Gate) (h : Hub) (epoch : ℕ) : Prop :=
  intends cfg gate h epoch = true → gate.append = .written → h.spendLog.tail = none

/- The intent of one turn of the loop over the rounds. -/
def OwnLineAt (gate : Gate) (tip : ℕ) (h : Hub) (epoch : ℕ) : Prop :=
  ∀ closed ∈ closedAt cfg tip h epoch, (proposePass cfg closed epoch).2 = true →
    OwnLine cfg gate (proposePass cfg closed epoch).1 epoch

instance (gate : Gate) (h : Hub) (epoch : ℕ) : Decidable (OwnLine cfg gate h epoch) :=
  inferInstanceAs (Decidable (_ → _ → _))

instance (gate : Gate) (tip : ℕ) (h : Hub) (epoch : ℕ) : Decidable (OwnLineAt cfg gate tip h epoch) :=
  inferInstanceAs (Decidable (∀ closed ∈ closedAt cfg tip h epoch, _))

/- Said of what a turn leaves, unless the process dies in it. -/
def Onward (P : Hub → Prop) : Turn Hub → Prop
  | .ok h => P h
  | .error _ => True

instance (P : Hub → Prop) [∀ h, Decidable (P h)] : (t : Turn Hub) → Decidable (Onward P t)
  | .ok h => inferInstanceAs (Decidable (P h))
  | .error _ => isTrue trivial

/- The same at every turn of the loop over the rounds. -/
def OwnLines (gates : ℕ → Gate) (tip : ℕ) : Hub → List ℕ → Prop
  | _, [] => True
  | h, epoch :: rest =>
    OwnLineAt cfg (gates epoch) tip h epoch ∧
      Onward (fun h => OwnLines gates tip h rest) (visitRound cfg gates tip h epoch)

instance decidableOwnLines (gates : ℕ → Gate) (tip : ℕ) :
    (h : Hub) → (epochs : List ℕ) → Decidable (OwnLines cfg gates tip h epochs)
  | _, [] => isTrue trivial
  | h, epoch :: rest =>
    have := fun h => decidableOwnLines gates tip h rest
    inferInstanceAs (Decidable (OwnLineAt cfg (gates epoch) tip h epoch ∧
      Onward (fun h => OwnLines cfg gates tip h rest) (visitRound cfg gates tip h epoch)))

/- Every verdict intent starts a line of its own, and no round is made for an epoch whose
   broadcast is still in flight. -/
def Careful (h : Hub) : Event → Prop
  | .tipRead gates (some tip) => h.ticking = some .tip → OwnLines cfg gates tip h h.rounds.keys.items
  | .onSign gate d => ∀ stored ∈ storeSig cfg h d, OwnLine cfg gate stored d.epoch
  | .epochRead (some _) => ∀ epoch ∈ inFlight h, h.ticking ≠ some (.resolving epoch)
  | _ => True

instance (h : Hub) : (e : Event) → Decidable (Careful cfg h e)
  | .tipRead _ none | .epochRead none | .tick | .answered _ | .onAnswer _ | .onSignReq _
  | .signReqAnswered _ _ | .onDone _ | .settled _ _ _ | .crash => isTrue trivial
  | .tipRead gates (some tip) =>
    inferInstanceAs (Decidable (h.ticking = some .tip → OwnLines cfg gates tip h h.rounds.keys.items))
  | .onSign gate d =>
    inferInstanceAs (Decidable (∀ stored ∈ storeSig cfg h d, OwnLine cfg gate stored d.epoch))
  | .epochRead (some _) =>
    inferInstanceAs (Decidable (∀ epoch ∈ inFlight h, h.ticking ≠ some (.resolving epoch)))

end Condition

section Turns
variable {cfg : Params} {h : Hub} {epoch : ℕ}

theorem maybe_finalize_safe (safe : Safe h) {gate : Gate} (own : OwnLine cfg gate h epoch) :
    Leaves Safe (maybeFinalize cfg gate h epoch) := by
  unfold maybeFinalize
  split
  · exact safe
  · rename_i st stored
    split
    · exact safe
    · rename_i open'
      rw [Bool.or_eq_true, not_or] at open'
      have grounded : epoch ∉ inFlight h := fun flying => open'.1 (safe.claimed epoch flying st stored)
      split
      · exact safe.claim
      · rename_i unpaid
        split
        · exact safe
        · rename_i allowed
          have ready : intends cfg gate h epoch = true := by
            simp_all [intends, Option.isSome_iff_ne_none]
          have fresh : status h.log epoch = .idle := by
            cases now : status h.log epoch with
            | idle => rfl
            | running => exact absurd ((safe.flights.running epoch).mp now) grounded
            | spent => exact absurd (safe.known epoch now) unpaid
          have claimed : Safe (h.claim epoch st.made) := safe.claim
          cases fate : gate.append with
          | written =>
            refine Safe.begin claimed ?_ ?_ ?_
            · rw [Hub.claim, alter_log]
              exact fresh
            · rw [Hub.claim, alter_spend_log]
              exact own ready fate
            · intro now found
              exact claim_get stored found
          | refused left =>
            refine Safe.unclaim (claimed.put (fun _ => by simp) left) ?_
            show epoch ∉ inFlight (h.claim epoch st.made)
            rw [Hub.claim, alter_in_flight]
            exact grounded
          | died left => exact claimed.put (fun _ => by simp) left

theorem co_sign_keeps {me : String} {pass : List String} {answer : String} (st : Round)
    (finalized : st.finalized = true) : (coSign cfg epoch me pass answer st).finalized = true := by
  unfold coSign
  simp only
  split <;> exact finalized

theorem propose_pass_safe (safe : Safe h) : Safe (proposePass cfg h epoch).1 := by
  unfold proposePass
  split
  · exact safe
  · split
    · split
      · exact safe
      · refine safe.alter (fun old finalized => ?_)
        unfold propose
        split <;> exact finalized
    · exact safe

theorem closed_at_safe (safe : Safe h) {tip : ℕ} : ∀ closed ∈ closedAt cfg tip h epoch, Safe closed := by
  intro closed member
  unfold closedAt at member
  split at member
  · exact absurd member (by simp)
  · split at member
    · rw [← Option.some.inj member]
      refine safe.alter ?_
      exact fun _ finalized => finalized
    · exact absurd member (by simp)

theorem store_sig_safe (safe : Safe h) {d : SignMessage} : ∀ stored ∈ storeSig cfg h d, Safe stored := by
  intro stored member
  unfold storeSig at member
  split at member
  · exact absurd member (by simp)
  · split at member
    · exact absurd member (by simp)
    · simp only at member
      split at member
      · exact absurd member (by simp)
      · rw [← Option.some.inj member]
        refine safe.alter ?_
        exact fun _ finalized => finalized

theorem visit_round_safe (safe : Safe h) {gates : ℕ → Gate} {tip : ℕ}
    (own : OwnLineAt cfg (gates epoch) tip h epoch) : Leaves Safe (visitRound cfg gates tip h epoch) := by
  have closed : Leaves Safe (closeAt cfg (gates epoch) tip h epoch) := by
    unfold closeAt
    split
    · exact safe
    · rename_i closed found
      have proposed : Safe (proposePass cfg closed epoch).1 :=
        propose_pass_safe (closed_at_safe safe closed found)
      unfold closeCollection
      split
      · rename_i goes
        exact maybe_finalize_safe proposed (own closed found goes)
      · exact proposed
  unfold visitRound
  cases result : closeAt cfg (gates epoch) tip h epoch with
  | error left =>
    rw [result] at closed
    exact closed
  | ok left =>
    rw [result] at closed
    show Safe (pruneAt cfg tip left epoch)
    unfold pruneAt
    split
    · exact closed.erase
    · exact closed

theorem visit_rounds_safe {gates : ℕ → Gate} {tip : ℕ} {epochs : List ℕ} (safe : Safe h)
    (own : OwnLines cfg gates tip h epochs) : Leaves Safe (visitRounds cfg gates tip h epochs) := by
  induction epochs generalizing h with
  | nil => exact safe
  | cons epoch rest ih =>
    obtain ⟨first, others⟩ := own
    have visited : Leaves Safe (visitRound cfg gates tip h epoch) := visit_round_safe safe first
    unfold visitRounds
    cases result : visitRound cfg gates tip h epoch with
    | error left =>
      rw [result] at visited
      exact visited
    | ok left =>
      rw [result] at visited others
      exact ih visited others

theorem settle_safe (safe : Safe h) (n : ℕ) (error : Option SendError) (append : Append) :
    Leaves Safe (settle h n error append) := by
  unfold settle
  split
  · exact safe
  · rename_i send held
    have charged : Safe { h with
        sends := h.sends.set n none
        committedEpochs := h.committedEpochs.add send.epoch
        log := .paid send.epoch :: h.log } :=
      safe.settle held (m := .paid send.epoch) rfl trivial (by simp [Mark.leaves])
        (fun e member => OrderedSet.mem_add.mpr (Or.inr member))
        (fun _ => OrderedSet.mem_add.mpr (Or.inl rfl))
    cases error with
    | none => exact charged.record (fun _ => by simp) append (fun left _ => charged.put (fun _ => by simp) left)
    | some e =>
      simp only
      split
      · exact charged.record (fun _ => by simp) append
          (fun left _ => charged.put (fun _ => by simp) left)
      · have returned : Safe { h with sends := h.sends.set n none, log := .refused send.epoch :: h.log } :=
          safe.settle held (m := .refused send.epoch) rfl trivial (by simp [Mark.leaves])
            (fun _ member => member) (by simp [Mark.leaves])
        have idle : status (Mark.refused send.epoch :: h.log) send.epoch = .idle :=
          status_same (.refused send.epoch) h.log
        refine returned.record (fun active => absurd idle active) append (fun left _ => ?_)
        refine Safe.unclaim (returned.put (fun active => absurd idle active) left) ?_
        intro flying
        have runs := (returned.flights.running send.epoch).mpr flying
        rw [idle] at runs
        exact absurd runs (by simp)

theorem turn_safe (safe : Safe h) {e : Event} (careful : Careful cfg h e) :
    Leaves Safe (turn cfg h e) := by
  cases e with
  | tick =>
    show Safe (tick cfg h)
    unfold tick
    split
    · exact safe
    · exact safe.ticking _
  | tipRead gates tip =>
    show Leaves Safe (tipRead cfg gates h tip)
    unfold tipRead
    split
    · exact safe.ticking _
    · rename_i tip stage
      have visited := visit_rounds_safe safe (careful stage)
      cases result : visitRounds cfg gates tip h h.rounds.keys.items with
      | error left =>
        rw [result] at visited
        exact visited
      | ok left =>
        rw [result] at visited
        exact visited.ticking _
    · exact safe
  | epochRead reads =>
    show Safe (epochRead cfg h reads)
    unfold epochRead
    split
    · exact safe.ticking _
    · rename_i epoch reads stage
      have grounded : epoch ∉ inFlight h := fun flying => careful epoch flying stage
      exact ((safe.set grounded _).counted _).ticking _
    · exact safe
  | answered answer =>
    show Safe (answered cfg h answer)
    unfold answered
    split
    · refine (safe.ticking none).alter (fun st finalized => ?_)
      unfold ownAnswer
      split <;> exact finalized
    · exact safe.ticking _
    · exact safe
  | onAnswer d =>
    show Safe (onAnswer cfg h d)
    unfold onAnswer
    split
    · exact safe
    · simp only
      split
      · exact safe
      · exact safe.alter (fun _ finalized => finalized)
  | onSignReq d =>
    show Safe (onSignReq cfg h d)
    unfold onSignReq
    split
    · simp only
      split
      · exact safe
      · split
        · exact safe.alter co_sign_keeps
        · exact safe.requests _
    · exact safe
  | signReqAnswered n answer =>
    show Safe (signReqAnswered cfg h n answer)
    unfold signReqAnswered
    split
    · exact (safe.requests _).alter co_sign_keeps
    · exact safe.requests _
  | onSign gate d =>
    show Leaves Safe (onSign cfg gate h d)
    unfold onSign
    split
    · exact safe
    · rename_i stored found
      exact maybe_finalize_safe (store_sig_safe safe stored found) (careful stored found)
  | onDone epoch =>
    show Safe (onDone h epoch)
    unfold onDone
    split
    · exact safe
    · exact safe.claim
  | settled n error append => exact settle_safe safe n error append
  | crash => exact safe

theorem step_safe (safe : Safe h) {e : Event} (careful : Careful cfg h e) : Safe (step cfg h e) := by
  have left := turn_safe safe careful
  unfold step
  cases result : turn cfg h e with
  | ok h' =>
    rw [result] at left
    exact left
  | error h' =>
    rw [result] at left
    exact left.restart

theorem started_safe (disk : TornLog.Log Record) (made : ℕ) : Safe (Hub.started disk made []) := by
  refine ⟨trivial, under_way_nil, ?_, ?_, ?_⟩
  · intro e spent
    exact absurd spent (by simp [Hub.started, status])
  · intro e flying
    exact absurd flying (by simp [inFlight, Hub.started, occupied])
  · intro e active
    exact absurd rfl active

end Turns

/-- In every run from any spend log on disk, an epoch's verdict is never broadcast while an
    earlier broadcast of it is in flight, nor after one that succeeded, ended ambiguously or
    was cut off. -/
theorem verdict_paid_once (cfg : Params) (disk : TornLog.Log Record) (made : ℕ) {es : List Event}
    (careful : Admitted (step cfg) (Careful cfg) (Hub.started disk made []) es) :
    PaidOnce (run (step cfg) (Hub.started disk made []) es).log :=
  (run_invariant Safe (fun _ _ safe admitted => step_safe safe admitted) (started_safe disk made)
    careful).once

section Samples

def sampleKey : String := "aaaaaaaaaaaaaaaaaaaaaaaaaaaaaaaaaaaaaaaaaaaaaaaaaaaaaaaaaaaaaaaa"

def sampleParams : Params where
  network := "regtest"
  pubkey := some sampleKey
  coinRpc := true
  genesis := [sampleKey]
  interval := 10
  confirmDepth := 6
  acceptWindow := 8
  closeDepth := 2
  equivActivation := fun _ => none
  sha256 := fun s => s
  toLowerCase := fun s => s
  sign := fun s => s
  verify := fun canonical sig _ => canonical = sig

/- Two ticks at the tip: the first opens the epoch's round, the second closes it as leader. -/
def leadsAt (tip : ℕ) (append : Append) : List Event :=
  let gates := fun _ => ⟨false, true, true, append⟩
  [.tick, .tipRead gates (some tip), .epochRead (some ⟨"00", [], [sampleKey]⟩), .answered (some "51"),
    .tick, .tipRead gates (some tip)]

/- The process dies in the first intent, and the next one's intent continues that line. -/
def tornRun : List Event :=
  leadsAt 22 (.died .part) ++ leadsAt 22 .written ++ [.crash] ++ leadsAt 22 .written

/-- A verdict is broadcast again after one that a crash cut off, its intent unreadable. -/
theorem torn_intent_paid_twice :
    (run (step sampleParams) (Hub.started TornLog.Log.empty 0 []) tornRun).log =
      [.begun 20, .paid 20, .begun 20] ∧
    ¬ PaidOnce (run (step sampleParams) (Hub.started TornLog.Log.empty 0 []) tornRun).log := by
  decide +kernel

def notSent : SendError := { message := "connect", code := "ECONNREFUSED" }

/- A refused verdict is retried after a crash, and the retry is the last. -/
def carefulRun : List Event :=
  leadsAt 22 .written ++ [.settled 0 (some notSent) .written, .crash] ++ leadsAt 22 .written ++
    [.settled 0 none (.died .bare)] ++ leadsAt 22 .written

theorem careful_run_admitted :
    Admitted (step sampleParams) (Careful sampleParams) (Hub.started TornLog.Log.empty 0 [])
      carefulRun ∧
    (run (step sampleParams) (Hub.started TornLog.Log.empty 0 []) carefulRun).log =
      [.paid 20, .begun 20, .refused 20, .begun 20] := by
  decide

theorem careful_run_paid_once :
    PaidOnce (run (step sampleParams) (Hub.started TornLog.Log.empty 0 []) carefulRun).log ∧
    (run (step sampleParams) (Hub.started TornLog.Log.empty 0 []) carefulRun).log =
      [.paid 20, .begun 20, .refused 20, .begun 20] := by
  have facts := careful_run_admitted
  generalize carefulRun = es at facts ⊢
  exact ⟨verdict_paid_once sampleParams TornLog.Log.empty 0 facts.1, facts.2⟩

end Samples
end XChainHub.FullNodeChallengeRound
