import XChainHub.Consensus.FullNodeChallengeRound.AtMostOnce
import XChainHub.Identity

/-!
What the verdicts that reach broadcastVerdict carry. While this hub co-signs no second list
in a round and stores no signature text with a bar in it, every wire splits into the fields
it announces and holds a quorum of verifying signatures over its own list.
-/
namespace XChainHub.FullNodeChallengeRound
open PaidLog TornLog IdempotentBroadcast GuardedRuns HexText DelimitedText ValidatorIdentity

/- A verdict as its wire is built: the round at the call of broadcastVerdict. -/
structure Verdict where
  epoch : ℕ
  round : Round

def Verdict.pass (v : Verdict) : List String := sortedPass (v.round.passList.getD [])

def verdictFields (v : Verdict) : List String :=
  ["NODEPROOF", "0", v.round.challengeId, toString v.epoch, toString v.pass.length] ++ v.pass ++
    [toString v.round.sigs.size] ++ v.round.sigs.entries.flatMap (fun s => [s.1, s.2])

def buildVerdictWire (v : Verdict) : String := "|".intercalate (verdictFields v)

structure Published where
  hub : Hub
  verdicts : List Verdict

def Published.started (disk : TornLog.Log Record) (made : ℕ) : Published :=
  ⟨Hub.started disk made [], []⟩

section Publishing
variable (cfg : Params)

/- The verdict that a call of maybeFinalize sends. -/
def verdictOf (gate : Gate) (h : Hub) (epoch : ℕ) : List Verdict :=
  match h.rounds.get epoch, maybeFinalize cfg gate h epoch with
  | some st, .ok after => if h.sends.length < after.sends.length then [⟨epoch, st⟩] else []
  | _, _ => []

def verdictAt (gate : Gate) (tip : ℕ) (h : Hub) (epoch : ℕ) : List Verdict :=
  match closedAt cfg tip h epoch with
  | none => []
  | some closed =>
    if (proposePass cfg closed epoch).2 then verdictOf cfg gate (proposePass cfg closed epoch).1 epoch
    else []

def verdictsAt (gates : ℕ → Gate) (tip : ℕ) : Hub → List ℕ → List Verdict
  | _, [] => []
  | h, epoch :: rest =>
    verdictAt cfg (gates epoch) tip h epoch ++
      match visitRound cfg gates tip h epoch with
      | .ok h => verdictsAt gates tip h rest
      | .error _ => []

def verdictsSent (h : Hub) : Event → List Verdict
  | .onSign gate d =>
    match storeSig cfg h d with
    | none => []
    | some stored => verdictOf cfg gate stored d.epoch
  | .tipRead gates tip =>
    match h.ticking, tip with
    | some .tip, some tip => verdictsAt cfg gates tip h h.rounds.keys.items
    | _, _ => []
  | _ => []

def publish (p : Published) (e : Event) : Published :=
  ⟨step cfg p.hub e, p.verdicts ++ verdictsSent cfg p.hub e⟩

/-- What is collected changes nothing of the hub's run. -/
theorem published_runs (p : Published) (es : List Event) :
    (run (publish cfg) p es).hub = run (step cfg) p.hub es := by
  induction es generalizing p with
  | nil => rfl
  | cons e es ih => exact ih (publish cfg p e)

/- A quorum of distinct eligible verifiers signs the challenge, the epoch and the sorted list
   of the wire, which splits into just the fields its counts announce. -/
structure Verdict.Sound (v : Verdict) : Prop where
  quorum : verdictQuorum v.round ≤ v.round.sigs.entries.length
  distinct : (v.round.sigs.entries.map Prod.fst).Nodup
  eligible : ∀ s ∈ v.round.sigs.entries, s.1 ∈ v.round.eligible
  verified : ∀ s ∈ v.round.sigs.entries,
    cfg.verify (verdictCanonical cfg v.round.challengeId v.epoch v.pass) s.2 s.1 = true
  split : barCells (buildVerdictWire v) = (verdictFields v).map String.toList

instance (v : Verdict) : Decidable (v.Sound cfg) :=
  decidable_of_iff (verdictQuorum v.round ≤ v.round.sigs.entries.length ∧
      (v.round.sigs.entries.map Prod.fst).Nodup ∧
      (∀ s ∈ v.round.sigs.entries, s.1 ∈ v.round.eligible) ∧
      (∀ s ∈ v.round.sigs.entries,
        cfg.verify (verdictCanonical cfg v.round.challengeId v.epoch v.pass) s.2 s.1 = true) ∧
      barCells (buildVerdictWire v) = (verdictFields v).map String.toList)
    ⟨fun all => ⟨all.1, all.2.1, all.2.2.1, all.2.2.2.1, all.2.2.2.2⟩,
      fun sound => ⟨sound.quorum, sound.distinct, sound.eligible, sound.verified, sound.split⟩⟩

/- The round and the list that an event has this hub co-sign. -/
def coSigning (h : Hub) : Event → Option (Round × List String)
  | .onSignReq d =>
    match h.rounds.get d.epoch, cfg.pubkey with
    | some st, some me =>
      let pass := d.passList.map cfg.toLowerCase
      if st.finalized || !(me ∈ st.eligible) || d.challengeId ≠ st.challengeId ||
          electedLeader cfg st ≠ some (cfg.toLowerCase d.sigPubkey) || !cfg.coinRpc then none
      else (st.myAnswer.filter (passConfirmed cfg st pass)).map (fun _ => (st, pass))
    | _, _ => none
  | .signReqAnswered n answer =>
    match h.requests[n]?.join, answer, cfg.pubkey with
    | some req, some answer, some _ =>
      (h.rounds.get req.epoch).bind (fun st =>
        if st.made = req.made && passConfirmed cfg st req.pass answer then some (st, req.pass)
        else none)
    | _, _, _ => none
  | _ => none

/- The signature text that an event stores for a peer. -/
def storing (h : Hub) : Event → Option String
  | .onSign _ d => (storeSig cfg h d).map (fun _ => d.sig)
  | _ => none

/- This hub co-signs the list a round already has, and stores signature texts without a bar. -/
structure Guard (p : Published) (e : Event) : Prop where
  coSigns : ∀ x ∈ coSigning cfg p.hub e, ∀ fixed ∈ x.1.passList, sortedPass fixed = sortedPass x.2
  stores : ∀ sig ∈ storing cfg p.hub e, '|' ∉ sig.toList

instance (p : Published) (e : Event) : Decidable (Guard cfg p e) :=
  decidable_of_iff ((∀ x ∈ coSigning cfg p.hub e, ∀ fixed ∈ x.1.passList,
      sortedPass fixed = sortedPass x.2) ∧ ∀ sig ∈ storing cfg p.hub e, '|' ∉ sig.toList)
    ⟨fun both => ⟨both.1, both.2⟩, fun guard => ⟨guard.coSigns, guard.stores⟩⟩

end Publishing

/- The identity of the hub and the crypto library behind its texts: what it signs verifies under
   its key, hashes are 64 digits, and the registry's genesis keys are keys. -/
structure Wired (cfg : Params) (crypto : Ed25519) (identity : Identity) : Prop where
  verify : cfg.verify = ValidatorIdentity.verify crypto
  sign : cfg.sign = identity.sign
  pubkey : ∀ me ∈ cfg.pubkey, me = identity.getPubkeyHex
  own : ∀ payload, ValidatorIdentity.verify crypto payload (identity.sign payload)
    identity.getPubkeyHex = true
  digest : ∀ s, LowerHex 64 (cfg.sha256 s)
  genesis : ∀ pk ∈ cfg.genesis, isHex64 pk = true

/- A signature that a round holds. -/
structure Collected (cfg : Params) (epoch : ℕ) (st : Round) (s : String × String) : Prop where
  eligible : s.1 ∈ st.eligible
  plain : '|' ∉ s.2.toList
  covers : ∃ pass, st.passList = some pass ∧
    cfg.verify (verdictCanonical cfg st.challengeId epoch (sortedPass pass)) s.2 s.1 = true

structure Round.Kept (cfg : Params) (epoch : ℕ) (st : Round) : Prop where
  challenge : '|' ∉ st.challengeId.toList
  eligible : ∀ pk ∈ st.eligible, isHex64 pk = true
  claimants : ∀ pk ∈ st.claimants, isHex64 pk = true
  listed : ∀ pass, st.passList = some pass → ∀ pk ∈ pass, pk ∈ st.claimants
  sigs : ∀ s ∈ st.sigs.entries, Collected cfg epoch st s

/- Requests at their await are of rounds in which this hub is eligible. -/
structure Kept (cfg : Params) (h : Hub) : Prop where
  rounds : ∀ epoch st, h.rounds.get epoch = some st → st.Kept cfg epoch ∧ st.made < h.made
  requests : ∀ req, some req ∈ h.requests → req.made < h.made ∧
    ∀ st, h.rounds.get req.epoch = some st → st.made = req.made → ∀ me ∈ cfg.pubkey, me ∈ st.eligible

section Keeping
variable {cfg : Params} {h : Hub} {epoch made : ℕ} {st : Round}

theorem hex64_lower {s : String} (hex : isHex64 s = true) : LowerHex 64 s := by
  simp only [isHex64, Bool.and_eq_true, decide_eq_true_eq, List.all_eq_true] at hex
  exact hex

theorem sorted_pass_idem (pass : List String) : sortedPass (sortedPass pass) = sortedPass pass :=
  (List.pairwise_insertionSort (· ≤ ·) pass).insertionSort_eq

theorem mem_sorted_pass {pass : List String} {pk : String} : pk ∈ sortedPass pass ↔ pk ∈ pass :=
  List.mem_insertionSort _

theorem pubkey_set_hex {genesis listed : List String} (keys : ∀ pk ∈ genesis, isHex64 pk = true) :
    ∀ pk ∈ pubkeySet cfg genesis listed, isHex64 pk = true := by
  intro pk member
  rw [pubkeySet, OrderedSet.mem_of_list] at member
  rcases List.mem_append.mp member with seed | read
  · exact keys pk seed
  · exact (List.mem_filter.mp read).2

theorem natural_plain (n : ℕ) : '|' ∉ (toString n).toList := by
  intro bar
  rw [show toString n = String.ofList (Nat.toDigits 10 n) from rfl, String.toList_ofList] at bar
  have digit := Nat.isDigit_of_mem_toDigits (by decide) (by decide) bar
  exact absurd digit (by decide)

/- A round is kept for what it binds, lists and holds; the rest of it may change. -/
theorem Round.Kept.same {now : Round} (kept : st.Kept cfg epoch)
    (challenge : now.challengeId = st.challengeId) (eligible : now.eligible = st.eligible)
    (claimants : now.claimants = st.claimants) (passList : now.passList = st.passList)
    (sigs : now.sigs = st.sigs) : now.Kept cfg epoch := by
  refine ⟨?_, ?_, ?_, ?_, ?_⟩
  · rw [challenge]
    exact kept.challenge
  · rw [eligible]
    exact kept.eligible
  · rw [claimants]
    exact kept.claimants
  · rw [passList, claimants]
    exact kept.listed
  · intro s member
    rw [sigs] at member
    obtain ⟨seat, plain, covers⟩ := kept.sigs s member
    refine ⟨by rw [eligible]; exact seat, plain, ?_⟩
    rw [passList, challenge]
    exact covers

/- Before a list is fixed a round holds no signature. -/
theorem Round.Kept.unsigned (kept : st.Kept cfg epoch) (open_ : st.passList = none) :
    st.sigs.entries = [] := by
  rw [List.eq_nil_iff_forall_not_mem]
  intro s member
  obtain ⟨pass, fixed, -⟩ := (kept.sigs s member).covers
  rw [open_] at fixed
  simp at fixed

/- A signature over the list that the round has, or has from now on. -/
theorem Round.Kept.sign (kept : st.Kept cfg epoch) {pk sig : String} {pass : List String}
    (seat : pk ∈ st.eligible) (plain : '|' ∉ sig.toList)
    (verified : cfg.verify (verdictCanonical cfg st.challengeId epoch (sortedPass pass)) sig pk = true)
    (fixed : st.passList = some pass ∨ st.passList = none ∧ ∀ pk ∈ pass, pk ∈ st.claimants) :
    Round.Kept cfg epoch { st with passList := some pass, sigs := st.sigs.set pk sig } := by
  refine ⟨kept.challenge, kept.eligible, kept.claimants, ?_, ?_⟩
  · intro list same
    rw [Option.some.injEq] at same
    subst same
    rcases fixed with before | ⟨-, listed⟩
    · exact kept.listed pass before
    · exact listed
  · intro s member
    rcases @OrderedMap.mem_set _ _ _ _ _ s.1 _ s.2 member with ⟨rfl, rfl⟩ | ⟨-, old⟩
    · exact ⟨seat, plain, pass, rfl, verified⟩
    · obtain ⟨held, short, list, before, covers⟩ := kept.sigs s old
      rcases fixed with same | ⟨none_, -⟩
      · rw [same, Option.some.injEq] at before
        subst before
        exact ⟨held, short, pass, rfl, covers⟩
      · rw [none_] at before
        simp at before

theorem Kept.of_same (kept : Kept cfg h) {h' : Hub} (rounds : h'.rounds = h.rounds)
    (requests : h'.requests = h.requests) (counted : h'.made = h.made) : Kept cfg h' := by
  refine ⟨?_, ?_⟩
  · rw [rounds, counted]
    exact kept.rounds
  · rw [requests, rounds, counted]
    exact kept.requests

theorem alter_made {f : Round → Round} : (h.alter epoch made f).made = h.made ∧
    (h.alter epoch made f).requests = h.requests := by
  unfold Hub.alter
  split
  · exact ⟨rfl, rfl⟩
  · split <;> exact ⟨rfl, rfl⟩

/- A write that leaves a round who it is. -/
def Identifies (f : Round → Round) : Prop := ∀ st, (f st).made = st.made ∧ (f st).eligible = st.eligible

theorem Kept.alter (kept : Kept cfg h) {f : Round → Round} (identifies : Identifies f)
    (keeps : ∀ st, h.rounds.get epoch = some st → st.made = made → st.Kept cfg epoch →
      (f st).Kept cfg epoch) : Kept cfg (h.alter epoch made f) := by
  obtain ⟨counted, requests⟩ : (h.alter epoch made f).made = h.made ∧
      (h.alter epoch made f).requests = h.requests := alter_made
  refine ⟨?_, ?_⟩
  · intro e st found
    rw [counted]
    rcases alter_get found with old | ⟨rfl, old, stored, own, rfl⟩
    · exact kept.rounds e st old
    · obtain ⟨good, young⟩ := kept.rounds e old stored
      exact ⟨keeps old stored own good, by rw [(identifies old).1]; exact young⟩
  · intro req parked
    rw [requests] at parked
    rw [counted]
    obtain ⟨young, seated⟩ := kept.requests req parked
    refine ⟨young, ?_⟩
    intro st found own me mine
    rcases alter_get found with old | ⟨same, old, stored, -, rfl⟩
    · exact seated st old own me mine
    · rw [(identifies old).2]
      rw [(identifies old).1] at own
      exact seated old (by rw [same]; exact stored) own me mine

theorem Kept.claim (kept : Kept cfg h) : Kept cfg (h.claim epoch made) :=
  kept.alter (fun _ => ⟨rfl, rfl⟩) (fun _ _ _ good => good.same rfl rfl rfl rfl rfl)

theorem Kept.unclaim (kept : Kept cfg h) : Kept cfg (h.unclaim epoch made) :=
  kept.alter (fun _ => ⟨rfl, rfl⟩) (fun _ _ _ good => good.same rfl rfl rfl rfl rfl)

theorem Kept.erase (kept : Kept cfg h) : Kept cfg { h with rounds := h.rounds.erase epoch } := by
  have among {e : ℕ} {st : Round} (found : (h.rounds.erase epoch).get e = some st) :
      h.rounds.get e = some st := by
    by_cases same : e = epoch
    · subst same
      simp at found
    · rw [OrderedMap.get_erase_other same] at found
      exact found
  refine ⟨fun e st found => kept.rounds e st (among found), ?_⟩
  intro req parked
  obtain ⟨young, seated⟩ := kept.requests req parked
  exact ⟨young, fun st found => seated st (among found)⟩

end Keeping
section Writes
variable {cfg : Params} {crypto : Ed25519} {identity : Identity} {h : Hub} {epoch : ℕ} {st : Round}
  {me : String} {pass : List String} {answer : String}

theorem own_signature_plain (wired : Wired cfg crypto identity) (payload : String) :
    '|' ∉ (cfg.sign payload).toList := by
  rw [wired.sign]
  exact (own_signature_lower identity payload).plain

theorem own_signature_verifies (wired : Wired cfg crypto identity) (own : cfg.pubkey = some me)
    (payload : String) : cfg.verify payload (cfg.sign payload) me = true := by
  rw [wired.verify, wired.sign, wired.pubkey me own]
  exact wired.own payload

theorem confirmed_listed (confirmed : passConfirmed cfg st pass answer = true) :
    ∀ pk ∈ pass, pk ∈ st.claimants := by
  intro pk member
  simp only [passConfirmed, Bool.and_eq_true, List.all_eq_true, decide_eq_true_eq] at confirmed
  exact (confirmed.1 pk member).1

theorem identifies_co_sign : Identifies (coSign cfg epoch me pass answer) := by
  intro st
  simp only [coSign]
  split <;> exact ⟨rfl, rfl⟩

theorem co_sign_kept (wired : Wired cfg crypto identity) (own : cfg.pubkey = some me)
    (seat : me ∈ st.eligible) (agrees : passConfirmed cfg st pass answer = true →
      ∀ fixed ∈ st.passList, sortedPass fixed = sortedPass pass) (kept : st.Kept cfg epoch) :
    (coSign cfg epoch me pass answer st).Kept cfg epoch := by
  have answered : Round.Kept cfg epoch { st with myAnswer := some answer } :=
    kept.same rfl rfl rfl rfl rfl
  simp only [coSign]
  split
  · rename_i confirmed
    have listed : ∀ pk ∈ sortedPass pass, pk ∈ st.claimants := by
      exact fun pk member => confirmed_listed confirmed pk (mem_sorted_pass.mp member)
    refine answered.sign seat (own_signature_plain wired _) ?_ ?_
    · have list : sortedPass (st.passList.getD (sortedPass pass)) = sortedPass pass := by
        cases held : st.passList with
        | none => exact sorted_pass_idem pass
        | some fixed => exact agrees confirmed fixed held
      rw [list]
      exact own_signature_verifies wired own _
    · cases held : st.passList with
      | none => exact Or.inr ⟨rfl, listed⟩
      | some fixed => exact Or.inl rfl
  · exact answered

theorem identifies_propose : Identifies (propose cfg epoch pass me) := by
  intro st
  simp only [propose]
  split <;> exact ⟨rfl, rfl⟩

theorem propose_pass_kept (wired : Wired cfg crypto identity) (kept : Kept cfg h) :
    Kept cfg (proposePass cfg h epoch).1 := by
  simp only [proposePass]
  split
  · exact kept
  · rename_i st stored
    split
    · rename_i me answer own answered
      split
      · exact kept
      · rename_i leads
        refine kept.alter identifies_propose (fun old found _ good => ?_)
        rw [stored, Option.some.injEq] at found
        subst found
        simp only [Bool.or_eq_true, not_or, Bool.not_eq_true, Bool.not_eq_false',
          Option.isSome_eq_false_iff, Option.isNone_iff_eq_none] at leads
        obtain ⟨⟨-, leader⟩, open_⟩ := leads
        have seat : me ∈ st.eligible := by
          simp only [isLeader, decide_eq_true_eq] at leader
          exact leader.1
        have listed : ∀ pk ∈ sortedPass (confirmedClaimants cfg st answer), pk ∈ st.claimants :=
          fun pk member => (List.mem_filter.mp (mem_sorted_pass.mp member)).1
        simp only [propose]
        split
        · refine ⟨good.challenge, good.eligible, good.claimants, ?_, ?_⟩
          · intro list same
            rw [← Option.some.inj same]
            exact listed
          · intro s member
            rw [good.unsigned open_] at member
            simp at member
        · refine good.sign seat (own_signature_plain wired _) ?_ (Or.inr ⟨open_, listed⟩)
          rw [sorted_pass_idem]
          exact own_signature_verifies wired own _
    · exact kept

theorem closed_at_kept (kept : Kept cfg h) {tip : ℕ} :
    ∀ closed ∈ closedAt cfg tip h epoch, Kept cfg closed := by
  intro closed member
  simp only [closedAt] at member
  split at member
  · simp at member
  · split at member
    · rw [← Option.some.inj member]
      exact kept.alter (fun _ => ⟨rfl, rfl⟩) (fun _ _ _ good => good.same rfl rfl rfl rfl rfl)
    · simp at member

theorem store_sig_kept (kept : Kept cfg h) {d : SignMessage}
    (plain : ∀ stored ∈ storeSig cfg h d, '|' ∉ d.sig.toList) :
    ∀ stored ∈ storeSig cfg h d, Kept cfg stored := by
  intro stored member
  have short := plain stored member
  simp only [storeSig] at member
  split at member
  · simp at member
  · rename_i st held
    split at member
    · simp at member
    · rename_i pass fixed
      split at member
      · simp at member
      · rename_i accepted
        rw [← Option.some.inj member]
        refine kept.alter (fun _ => ⟨rfl, rfl⟩) (fun old found _ good => ?_)
        rw [held, Option.some.injEq] at found
        subst found
        simp only [Bool.or_eq_true, not_or, Bool.not_eq_true, Bool.not_eq_false',
          decide_eq_true_eq, not_not] at accepted
        obtain ⟨⟨⟨-, seat⟩, -⟩, verified⟩ := accepted
        have signed := good.sign seat short verified (Or.inl fixed)
        exact signed.same rfl rfl rfl fixed rfl

theorem maybe_finalize_kept (kept : Kept cfg h) (gate : Gate) :
    Leaves (Kept cfg) (maybeFinalize cfg gate h epoch) := by
  simp only [maybeFinalize]
  split
  · exact kept
  · rename_i st stored
    have claimed : Kept cfg (h.claim epoch st.made) := kept.claim
    split
    · exact kept
    · split
      · exact claimed
      · split
        · exact kept
        · cases gate.append with
          | written => exact claimed.of_same rfl rfl rfl
          | refused left => exact Kept.unclaim (claimed.of_same rfl rfl rfl)
          | died left => exact claimed.of_same rfl rfl rfl

theorem visit_round_kept (wired : Wired cfg crypto identity) (kept : Kept cfg h) (gates : ℕ → Gate)
    (tip : ℕ) : Leaves (Kept cfg) (visitRound cfg gates tip h epoch) := by
  have closed : Leaves (Kept cfg) (closeAt cfg (gates epoch) tip h epoch) := by
    simp only [closeAt]
    split
    · exact kept
    · rename_i closed found
      have proposed : Kept cfg (proposePass cfg closed epoch).1 :=
        propose_pass_kept wired (closed_at_kept kept closed found)
      simp only [closeCollection]
      split
      · exact maybe_finalize_kept proposed _
      · exact proposed
  simp only [visitRound]
  cases result : closeAt cfg (gates epoch) tip h epoch with
  | error left =>
    rw [result] at closed
    exact closed
  | ok left =>
    rw [result] at closed
    show Kept cfg (pruneAt cfg tip left epoch)
    simp only [pruneAt]
    split
    · exact Kept.erase closed
    · exact closed

theorem visit_rounds_kept (wired : Wired cfg crypto identity) {gates : ℕ → Gate} {tip : ℕ}
    {epochs : List ℕ} (kept : Kept cfg h) :
    Leaves (Kept cfg) (visitRounds cfg gates tip h epochs) := by
  induction epochs generalizing h with
  | nil => exact kept
  | cons epoch rest ih =>
    have visited := @visit_round_kept _ _ _ _ epoch wired kept gates tip
    simp only [visitRounds]
    cases result : visitRound cfg gates tip h epoch with
    | error left =>
      rw [result] at visited
      exact visited
    | ok left =>
      rw [result] at visited
      exact ih visited

theorem settle_kept (kept : Kept cfg h) (n : ℕ) (error : Option SendError) (append : Append) :
    Leaves (Kept cfg) (settle h n error append) := by
  simp only [settle]
  split
  · exact kept
  · cases error with
    | none => cases append <;> exact kept.of_same rfl rfl rfl
    | some e =>
      simp only
      split
      · cases append <;> exact kept.of_same rfl rfl rfl
      · cases append with
        | written => exact Kept.unclaim (kept.of_same rfl rfl rfl)
        | refused left => exact Kept.unclaim (kept.of_same rfl rfl rfl)
        | died left => exact kept.of_same rfl rfl rfl

theorem new_epoch_kept (wired : Wired cfg crypto identity) (made epoch : ℕ) (reads : EpochReads) :
    (newEpochState cfg made epoch reads).Kept cfg epoch := by
  refine ⟨(wired.digest _).plain, pubkey_set_hex wired.genesis, pubkey_set_hex (by simp), ?_, ?_⟩
  · intro pass fixed
    simp [newEpochState] at fixed
  · intro s member
    simp [newEpochState, OrderedMap.empty] at member

theorem Kept.open (kept : Kept cfg h) {st : Round} (good : st.Kept cfg epoch) (fresh : st.made = h.made) :
    Kept cfg { h with rounds := h.rounds.set epoch st, made := h.made + 1 } := by
  have among {e : ℕ} {now : Round} (found : (h.rounds.set epoch st).get e = some now) :
      (e = epoch ∧ now = st) ∨ h.rounds.get e = some now := by
    by_cases same : e = epoch
    · subst same
      rw [OrderedMap.get_set_same, Option.some.injEq] at found
      exact Or.inl ⟨rfl, found.symm⟩
    · rw [OrderedMap.get_set_other same] at found
      exact Or.inr found
  refine ⟨?_, ?_⟩
  · intro e now found
    rcases among found with ⟨rfl, rfl⟩ | old
    · exact ⟨good, by simp only [fresh]; omega⟩
    · obtain ⟨held, young⟩ := kept.rounds e now old
      exact ⟨held, by simp only; omega⟩
  · intro req parked
    obtain ⟨young, seated⟩ := kept.requests req parked
    refine ⟨by simp only; omega, ?_⟩
    intro now found own
    rcases among found with ⟨-, rfl⟩ | old
    · omega
    · exact seated now old own

theorem Kept.forget (kept : Kept cfg h) (n : ℕ) : Kept cfg { h with requests := h.requests.set n none } := by
  refine ⟨kept.rounds, ?_⟩
  intro req parked
  rcases List.mem_or_eq_of_mem_set parked with old | gone
  · exact kept.requests req old
  · simp at gone

end Writes
section Turns
variable {cfg : Params} {crypto : Ed25519} {identity : Identity} {h : Hub}

theorem sign_req_kept (wired : Wired cfg crypto identity) (kept : Kept cfg h) (d : SignReqMessage)
    (agrees : ∀ x ∈ coSigning cfg h (.onSignReq d), ∀ fixed ∈ x.1.passList,
      sortedPass fixed = sortedPass x.2) : Kept cfg (onSignReq cfg h d) := by
  simp only [coSigning] at agrees
  simp only [onSignReq]
  split
  · rename_i st me stored own
    rw [stored, own] at agrees
    simp only at agrees
    split
    · exact kept
    · rename_i accepted
      rw [if_neg accepted] at agrees
      have seat : me ∈ st.eligible := by
        simp only [Bool.or_eq_true, not_or, Bool.not_eq_true, Bool.not_eq_false',
          decide_eq_true_eq] at accepted
        exact accepted.1.1.1.2
      split
      · rename_i answer answered
        refine kept.alter identifies_co_sign (fun old found _ good => ?_)
        rw [stored, Option.some.injEq] at found
        subst found
        refine co_sign_kept wired own seat (fun confirmed => ?_) good
        refine agrees (st, d.passList.map cfg.toLowerCase) ?_
        simp [answered, Option.filter, confirmed]
      · refine ⟨kept.rounds, ?_⟩
        intro req parked
        rcases List.mem_append.mp parked with old | new
        · exact kept.requests req old
        · have same := Option.some.inj (List.mem_singleton.mp new)
          subst same
          refine ⟨(kept.rounds d.epoch st stored).2, ?_⟩
          intro now found _ me' mine
          rw [stored, Option.some.injEq] at found
          rw [own, Option.mem_some_iff] at mine
          rw [← found, ← mine]
          exact seat
  · exact kept

theorem answered_req_kept (wired : Wired cfg crypto identity) (kept : Kept cfg h) (n : ℕ)
    (answer : Option String) (agrees : ∀ x ∈ coSigning cfg h (.signReqAnswered n answer),
      ∀ fixed ∈ x.1.passList, sortedPass fixed = sortedPass x.2) :
    Kept cfg (signReqAnswered cfg h n answer) := by
  simp only [coSigning] at agrees
  simp only [signReqAnswered]
  split
  · rename_i req answer me parked own
    rw [parked, own] at agrees
    simp only at agrees
    refine (kept.forget n).alter identifies_co_sign (fun st found mine good => ?_)
    have stored : h.rounds.get req.epoch = some st := found
    have waiting : some req ∈ h.requests := List.mem_of_getElem? (Option.join_eq_some_iff.mp parked)
    have seat : me ∈ st.eligible := (kept.requests req waiting).2 st stored mine me own
    refine co_sign_kept wired own seat (fun confirmed => ?_) good
    refine agrees (st, req.pass) ?_
    simp [stored, mine, confirmed]
  · exact kept.forget n

theorem turn_kept (wired : Wired cfg crypto identity) (kept : Kept cfg h) {e : Event}
    {verdicts : List Verdict} (guard : Guard cfg ⟨h, verdicts⟩ e) :
    Leaves (Kept cfg) (turn cfg h e) := by
  cases e with
  | tick =>
    show Kept cfg (tick cfg h)
    simp only [tick]
    split <;> exact kept.of_same rfl rfl rfl
  | tipRead gates tip =>
    show Leaves (Kept cfg) (tipRead cfg gates h tip)
    unfold tipRead
    split
    · exact kept.of_same rfl rfl rfl
    · rename_i tip stage
      have visited := @visit_rounds_kept _ _ _ _ wired gates tip h.rounds.keys.items kept
      cases result : visitRounds cfg gates tip h h.rounds.keys.items with
      | error left =>
        rw [result] at visited
        exact visited
      | ok left =>
        rw [result] at visited
        exact Kept.of_same visited rfl rfl rfl
    · exact kept
  | epochRead reads =>
    show Kept cfg (epochRead cfg h reads)
    unfold epochRead
    split
    · exact kept.of_same rfl rfl rfl
    · exact (kept.open (new_epoch_kept wired h.made _ _) rfl).of_same rfl rfl rfl
    · exact kept
  | answered answer =>
    show Kept cfg (answered cfg h answer)
    unfold answered
    split
    · have idle : Kept cfg { h with ticking := none } := kept.of_same rfl rfl rfl
      refine idle.alter (fun st => ?_) (fun st _ _ good => ?_)
      · unfold ownAnswer
        split <;> exact ⟨rfl, rfl⟩
      · unfold ownAnswer
        split <;> exact good.same rfl rfl rfl rfl rfl
    · exact kept.of_same rfl rfl rfl
    · exact kept
  | onAnswer d =>
    show Kept cfg (onAnswer cfg h d)
    unfold onAnswer
    split
    · exact kept
    · simp only
      split
      · exact kept
      · exact kept.alter (fun _ => ⟨rfl, rfl⟩) (fun _ _ _ good => good.same rfl rfl rfl rfl rfl)
  | onSignReq d => exact sign_req_kept wired kept d guard.coSigns
  | signReqAnswered n answer => exact answered_req_kept wired kept n answer guard.coSigns
  | onSign gate d =>
    show Leaves (Kept cfg) (onSign cfg gate h d)
    unfold onSign
    split
    · exact kept
    · rename_i stored found
      refine maybe_finalize_kept (store_sig_kept kept (fun other accepted => ?_) stored found) gate
      refine guard.stores d.sig ?_
      have accepted : storeSig cfg h d = some other := accepted
      simp [storing, accepted]
  | onDone epoch =>
    show Kept cfg (onDone h epoch)
    unfold onDone
    split
    · exact kept
    · exact kept.claim
  | settled n error append => exact settle_kept kept n error append
  | crash => exact kept

theorem started_kept (disk : TornLog.Log Record) (made : ℕ) (log : List (Mark ℕ)) :
    Kept cfg (Hub.started disk made log) := by
  refine ⟨?_, ?_⟩
  · intro epoch st found
    simp [Hub.started] at found
  · intro req parked
    simp [Hub.started] at parked

end Turns
section Verdicts
variable {cfg : Params} {h : Hub} {epoch : ℕ}

theorem verdict_fields_plain {v : Verdict} (kept : v.round.Kept cfg v.epoch) :
    ∀ f ∈ verdictFields v, '|' ∉ f.toList := by
  have pass : ∀ pk ∈ v.pass, '|' ∉ pk.toList := by
    intro pk member
    rw [Verdict.pass, mem_sorted_pass] at member
    cases fixed : v.round.passList with
    | none => simp [fixed] at member
    | some list =>
      rw [fixed] at member
      exact (hex64_lower (kept.claimants pk (kept.listed list fixed pk member))).plain
  have sigs : ∀ s ∈ v.round.sigs.entries, '|' ∉ s.1.toList ∧ '|' ∉ s.2.toList := by
    intro s member
    have held := kept.sigs s member
    exact ⟨(hex64_lower (kept.eligible s.1 held.eligible)).plain, held.plain⟩
  intro f member
  simp only [verdictFields, List.mem_append, List.mem_cons, List.not_mem_nil, or_false,
    List.mem_flatMap] at member
  rcases member with ((((rfl | rfl | rfl | rfl | rfl) | listed) | rfl) | ⟨s, held, rfl | rfl⟩)
  · decide
  · decide
  · exact kept.challenge
  · exact natural_plain _
  · exact natural_plain _
  · exact pass f listed
  · exact natural_plain _
  · exact (sigs s held).1
  · exact (sigs s held).2

/- What maybeFinalize sends is a round that has its list and its quorum. -/
theorem verdict_of_ready {gate : Gate} {v : Verdict} (sent : v ∈ verdictOf cfg gate h epoch) :
    v.epoch = epoch ∧ h.rounds.get epoch = some v.round ∧ v.round.passList.isSome = true ∧
      verdictQuorum v.round ≤ v.round.sigs.size := by
  simp only [verdictOf] at sent
  split at sent
  · rename_i st after stored result
    split at sent
    · rename_i grown
      rw [List.mem_singleton.mp sent]
      refine ⟨rfl, stored, ?_⟩
      simp only [maybeFinalize, stored] at result
      split at result
      · rw [← Except.ok.inj result] at grown
        exact absurd grown (lt_irrefl _)
      · rename_i open_
        split at result
        · rw [← Except.ok.inj result, Hub.claim, alter_sends] at grown
          exact absurd grown (lt_irrefl _)
        · split at result
          · rw [← Except.ok.inj result] at grown
            exact absurd grown (lt_irrefl _)
          · rename_i allowed
            simp only [Bool.or_eq_true, not_or, Bool.not_eq_true, Option.isNone_eq_false_iff] at open_
            simp only [verdictAllowed, Bool.not_eq_true, Bool.not_eq_false', Bool.and_eq_true,
              decide_eq_true_eq] at allowed
            exact ⟨open_.2, allowed.1.1.1.2⟩
    · simp at sent
  · simp at sent

theorem verdict_of_sound (kept : Kept cfg h) {gate : Gate} {v : Verdict}
    (sent : v ∈ verdictOf cfg gate h epoch) : v.Sound cfg := by
  obtain ⟨rfl, stored, listed, quorum⟩ := verdict_of_ready sent
  have good := (kept.rounds v.epoch v.round stored).1
  refine ⟨quorum, v.round.sigs.nodup, fun s member => (good.sigs s member).eligible, ?_, ?_⟩
  · intro s member
    obtain ⟨pass, fixed, covers⟩ := (good.sigs s member).covers
    rw [Verdict.pass, fixed]
    exact covers
  · exact (bar_cells_join_iff (by simp [verdictFields])).mpr (verdict_fields_plain good)

variable {crypto : Ed25519} {identity : Identity}

theorem verdict_at_sound (wired : Wired cfg crypto identity) (kept : Kept cfg h) {gate : Gate}
    {tip : ℕ} {v : Verdict} (sent : v ∈ verdictAt cfg gate tip h epoch) : v.Sound cfg := by
  simp only [verdictAt] at sent
  split at sent
  · simp at sent
  · rename_i closed found
    split at sent
    · exact verdict_of_sound (propose_pass_kept wired (closed_at_kept kept closed found)) sent
    · simp at sent

theorem verdicts_at_sound (wired : Wired cfg crypto identity) {gates : ℕ → Gate} {tip : ℕ}
    {epochs : List ℕ} (kept : Kept cfg h) :
    ∀ v ∈ verdictsAt cfg gates tip h epochs, v.Sound cfg := by
  induction epochs generalizing h with
  | nil => simp [verdictsAt]
  | cons epoch rest ih =>
    intro v sent
    rcases List.mem_append.mp sent with first | later
    · exact verdict_at_sound wired kept first
    · have visited := @visit_round_kept _ _ _ _ epoch wired kept gates tip
      cases result : visitRound cfg gates tip h epoch with
      | error left =>
        rw [result] at later
        simp at later
      | ok left =>
        rw [result] at visited later
        exact ih visited v later

theorem verdicts_sent_sound (wired : Wired cfg crypto identity) (kept : Kept cfg h) {e : Event}
    {verdicts : List Verdict} (guard : Guard cfg ⟨h, verdicts⟩ e) :
    ∀ v ∈ verdictsSent cfg h e, v.Sound cfg := by
  intro v sent
  cases e with
  | onSign gate d =>
    simp only [verdictsSent] at sent
    split at sent
    · simp at sent
    · rename_i stored found
      refine verdict_of_sound (store_sig_kept kept (fun other accepted => ?_) stored found) sent
      refine guard.stores d.sig ?_
      have accepted : storeSig cfg h d = some other := accepted
      simp [storing, accepted]
  | tipRead gates tip =>
    simp only [verdictsSent] at sent
    split at sent
    · exact verdicts_at_sound wired kept v sent
    · simp at sent
  | _ => simp [verdictsSent] at sent

end Verdicts

/-- While this hub co-signs no second list in a round and stores no signature text with a bar in
    it, every verdict that reaches broadcastVerdict in any run is sound. -/
theorem published_verdicts_verify (cfg : Params) (crypto : Ed25519) (identity : Identity)
    (wired : Wired cfg crypto identity) (disk : TornLog.Log Record) (made : ℕ) {es : List Event}
    (guarded : Admitted (publish cfg) (Guard cfg) (.started disk made) es) :
    ∀ v ∈ (run (publish cfg) (.started disk made) es).verdicts, v.Sound cfg := by
  have start : Kept cfg (Published.started disk made).hub ∧
      ∀ v ∈ (Published.started disk made).verdicts, v.Sound cfg :=
    ⟨started_kept disk made [], by simp [Published.started]⟩
  refine (run_invariant (fun p : Published => Kept cfg p.hub ∧ ∀ v ∈ p.verdicts, v.Sound cfg)
    ?_ start guarded).2
  rintro p e ⟨kept, sound⟩ guard
  refine ⟨?_, ?_⟩
  · have left := turn_kept wired kept guard
    simp only [publish, step]
    cases result : turn cfg p.hub e with
    | ok after =>
      rw [result] at left
      exact left
    | error after => exact started_kept _ _ _
  · intro v member
    rcases List.mem_append.mp member with old | new
    · exact sound v old
    · exact verdicts_sent_sound wired kept guard v new

section Fixtures

/- A signature is the key beside the size of the payload. -/
def sizedCrypto : Ed25519 where
  PublicKey := List ℕ
  createPublicKey raw := if raw.length = 32 then some raw else none
  verify key payload sig :=
    sig = key ++ List.replicate 32 (payload.utf8ByteSize % 256) && sig.length = 64
  raw_length := raw_of_sized
  signature_length key payload sig verified := by
    simp only [Bool.and_eq_true, decide_eq_true_eq] at verified
    exact verified.2

def sizedIdentity (byte : ℕ) : Identity where
  rawPubkey := List.replicate 32 byte
  signBytes payload := List.replicate 32 byte ++ List.replicate 32 (payload.utf8ByteSize % 256)
  pubkey_length := replicated_key byte
  signature_length payload := by
    rw [List.length_append, List.length_replicate, List.length_replicate]

theorem sized_signature_verifies {byte : ℕ} (small : byte < 256) (payload : String) :
    ValidatorIdentity.verify sizedCrypto payload ((sizedIdentity byte).sign payload)
      (sizedIdentity byte).getPubkeyHex = true := by
  have raw : ∀ b ∈ List.replicate 32 byte, b < 256 := by
    intro b member
    rw [(List.mem_replicate.mp member).2]
    exact small
  have key : hexBytes (sizedIdentity byte).getPubkeyHex.toList = List.replicate 32 byte := by
    rw [Identity.getPubkeyHex, String.toList_ofList]
    exact hex_text_bytes raw
  have sig : hexBytes ((sizedIdentity byte).sign payload).toList =
      List.replicate 32 byte ++ List.replicate 32 (payload.utf8ByteSize % 256) := by
    rw [Identity.sign, String.toList_ofList]
    refine hex_text_bytes (fun b member => ?_)
    rcases List.mem_append.mp member with front | back
    · exact raw b front
    · rw [(List.mem_replicate.mp back).2]
      exact Nat.mod_lt _ (by decide)
  have keyed : (sizedIdentity byte).getPubkeyHex.toList.length = 64 :=
    (own_pubkey_lower (sizedIdentity byte)).1
  have signed : ((sizedIdentity byte).sign payload).toList.length = 128 :=
    (own_signature_lower (sizedIdentity byte) payload).1
  have filled {s : String} (long : s.toList.length ≠ 0) : s ≠ "" := by
    rintro rfl
    exact long rfl
  have built : pubkeyFromHex sizedCrypto (sizedIdentity byte).getPubkeyHex =
      some (List.replicate 32 byte) := by
    rw [pubkeyFromHex, if_neg (not_not.mpr keyed), key]
    simp only [sizedCrypto, List.length_replicate, if_true]
  have some_text : ¬ (((sizedIdentity byte).sign payload = "" ||
      (sizedIdentity byte).getPubkeyHex = "") = true) := by
    simp only [Bool.or_eq_true, decide_eq_true_eq, not_or]
    exact ⟨filled (by rw [signed]; decide), filled (by rw [keyed]; decide)⟩
  rw [ValidatorIdentity.verify, if_neg some_text, built]
  simp only [sig, sizedCrypto, List.length_append, List.length_replicate, decide_true,
    Bool.and_self]

def leaderKey : String := "1111111111111111111111111111111111111111111111111111111111111111"

def ownKey : String := "2222222222222222222222222222222222222222222222222222222222222222"

def firstKey : String := "3333333333333333333333333333333333333333333333333333333333333333"

def secondKey : String := "4444444444444444444444444444444444444444444444444444444444444444"

def zeros : String := "0000000000000000000000000000000000000000000000000000000000000000"

def keyBytes : List (String × ℕ) :=
  [(leaderKey, 17), (ownKey, 34), (firstKey, 51), (secondKey, 68)]

/- Signatures of the known keys are told without reading their bytes. -/
def quickVerify (payload sig key : String) : Bool :=
  keyBytes.any (fun k => key = k.1 && sig = (sizedIdentity k.2).sign payload) ||
    ValidatorIdentity.verify sizedCrypto payload sig key

theorem quick_verify_same : quickVerify = ValidatorIdentity.verify sizedCrypto := by
  have known : ∀ k ∈ keyBytes, k.1 = (sizedIdentity k.2).getPubkeyHex ∧ k.2 < 256 := by
    decide
  funext payload sig key
  rw [quickVerify, Bool.or_eq_right_iff_imp, List.any_eq_true]
  rintro ⟨k, member, same⟩
  simp only [Bool.and_eq_true, decide_eq_true_eq] at same
  rw [same.1, same.2, (known k member).1]
  exact sized_signature_verifies (known k member).2 payload

def verdictParams : Params where
  network := "regtest"
  pubkey := some ownKey
  coinRpc := true
  genesis := [leaderKey, ownKey]
  interval := 10
  confirmDepth := 6
  acceptWindow := 8
  closeDepth := 2
  equivActivation := fun _ => none
  sha256 := fun _ => zeros
  toLowerCase := fun s => s
  sign := (sizedIdentity 34).sign
  verify := quickVerify

theorem verdict_params_wired : Wired verdictParams sizedCrypto (sizedIdentity 34) := by
  have own : ownKey = (sizedIdentity 34).getPubkeyHex := by decide
  have digest : LowerHex 64 zeros := by decide
  refine ⟨quick_verify_same, rfl, ?_, sized_signature_verifies (by decide), fun _ => digest, ?_⟩
  · intro me mine
    rw [← Option.mem_some_iff.mp mine, own]
  · decide

def writes : ℕ → Gate := fun _ => ⟨false, true, true, .written⟩

/- Behind its leader, the hub opens epoch 20 with two claimants. -/
def openedEpoch : List Event :=
  [.tick, .tipRead writes (some 21), .epochRead (some ⟨"00", [], [firstKey, secondKey]⟩),
    .answered (some "51")]

def answerFrom (pk : String) (byte : ℕ) : Event :=
  .onAnswer ⟨20, zeros, zeros, pk, (sizedIdentity byte).sign (answerCanonical zeros zeros)⟩

def proposed (pass : List String) : Event := .onSignReq ⟨20, zeros, pass, leaderKey⟩

/- The leader's signature over a list, with more text behind it. -/
def leaderSigns (pass : List String) (more : String) : Event :=
  .onSign (writes 20) ⟨20, zeros, leaderKey,
    (sizedIdentity 17).sign (verdictCanonical verdictParams zeros 20 pass) ++ more⟩

/- No verdict lands, and the tip promotes this hub. -/
def promoted : List Event := [.tick, .tipRead writes (some 24)]

def oneListRun : List Event :=
  openedEpoch ++ [answerFrom firstKey 51, proposed [firstKey]] ++ promoted ++
    [leaderSigns [firstKey] ""]

/- The leader proposes again once the second claimant has answered. -/
def secondListRun : List Event :=
  openedEpoch ++ [answerFrom firstKey 51, proposed [firstKey], answerFrom secondKey 68,
    proposed [firstKey, secondKey]] ++ promoted ++ [leaderSigns [firstKey] ""]

def longSignatureRun : List Event :=
  openedEpoch ++ [answerFrom firstKey 51, proposed [firstKey]] ++ promoted ++
    [leaderSigns [firstKey] "|x"]

/- The run over one list with its admission and its verdict. -/
def listDecided : { events : List Event //
    Admitted (publish verdictParams) (Guard verdictParams) (.started TornLog.Log.empty 0) events ∧
      (run (publish verdictParams) (.started TornLog.Log.empty 0) events).verdicts.length = 1 } :=
  ⟨oneListRun, by decide +kernel⟩

theorem one_list_verdict :
    let verdicts := (run (publish verdictParams) (.started TornLog.Log.empty 0) oneListRun).verdicts
    verdicts.length = 1 ∧ ∀ v ∈ verdicts, v.Sound verdictParams := by
  have ran : Admitted (publish verdictParams) (Guard verdictParams) (.started TornLog.Log.empty 0)
      oneListRun ∧ (run (publish verdictParams) (.started TornLog.Log.empty 0)
        oneListRun).verdicts.length = 1 := listDecided.property
  exact ⟨ran.2, published_verdicts_verify verdictParams sizedCrypto (sizedIdentity 34)
    verdict_params_wired TornLog.Log.empty 0 ran.1⟩

theorem Verdict.Sound.plain {cfg : Params} {v : Verdict} (sound : v.Sound cfg) :
    ∀ s ∈ v.round.sigs.entries, '|' ∉ s.2.toList := by
  intro s held
  refine (bar_cells_join_iff (by simp [verdictFields])).mp sound.split s.2 ?_
  simp only [verdictFields, List.mem_append, List.mem_flatMap, List.mem_cons, List.not_mem_nil,
    or_false]
  exact .inr ⟨s, held, .inr rfl⟩

/- The runs whose verdicts do not verify. -/
def secondListDecided : { events : List Event //
    ∃ v ∈ (run (publish verdictParams) (.started TornLog.Log.empty 0) events).verdicts,
      ¬ v.Sound verdictParams } :=
  ⟨secondListRun, by decide +kernel⟩

def longSignatureDecided : { events : List Event //
    ∃ v ∈ (run (publish verdictParams) (.started TornLog.Log.empty 0) events).verdicts,
      ∃ s ∈ v.round.sigs.entries, '|' ∈ s.2.toList } :=
  ⟨longSignatureRun, by decide +kernel⟩

/-- A second list leaves a signature over it in the verdict of the first, and a signature with a
    bar behind its digits splits into one field too many. -/
theorem verdict_unsound :
    (∃ v ∈ (run (publish verdictParams) (.started TornLog.Log.empty 0) secondListRun).verdicts,
      ¬ v.Sound verdictParams) ∧
    ∃ v ∈ (run (publish verdictParams) (.started TornLog.Log.empty 0) longSignatureRun).verdicts,
      ¬ v.Sound verdictParams := by
  obtain ⟨v, sent, s, held, bar⟩ := longSignatureDecided.property
  exact ⟨secondListDecided.property, v, sent, fun sound => sound.plain s held bar⟩

end Fixtures
end XChainHub.FullNodeChallengeRound
