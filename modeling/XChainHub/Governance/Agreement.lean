import XChainHub.Governance.Outcomes

/-!
Runs of a federation on one proposal: the honest hubs settle it alike exactly as long as
nobody settles outside the margin of those who settled before, and a passed proposal carries
the approvals of two thirds of its electorate.
-/
namespace XChainHub.Governance
open ScriptValue GuardedRuns
open StakeWeightedQuorum (asciiLower)

section Decisions
variable {ι : Type} {cfg : Config ι} {keys : List String} {w : World ι}

variable (cfg keys) in
def Sound (w : World ι) : Prop := ∀ i, PeerSound cfg keys w.signed (w.peers i)

theorem Start.sound (start : Start keys w) : Sound cfg keys w := by
  intro i
  obtain ⟨votes, heard, tasks⟩ := start.empty i
  obtain ⟨status, undecided⟩ := start.open' i
  refine ⟨start.locked i, ?_, ?_, ?_, ?_⟩
  · rw [votes, heard]
    exact ⟨empty_table_of, fun b member => absurd member List.not_mem_nil⟩
  · intro n t held
    rw [tasks, SlotHeap.slot_nil] at held
    exact absurd held (by simp)
  · rw [status, undecided]
    rfl
  · intro heard decided
    rw [undecided] at decided
    exact absurd decided (by simp)

variable (cfg keys) in
/- The decisions taken lie on one side of the bar. -/
def Alike (w : World ι) : Prop :=
  ∀ i j, ∀ mine ∈ (w.peers i).decidedOn, ∀ theirs ∈ (w.peers j).decidedOn,
    (bar keys ≤ (backers cfg.column keys mine).card ↔ bar keys ≤ (backers cfg.column keys theirs).card)

theorem verdict_settled (heard : List Ballot) : verdict cfg keys heard ≠ .voting := by
  unfold verdict statusOf
  split <;> simp

theorem verdict_same_iff {mine theirs : List Ballot} :
    verdict cfg keys mine = verdict cfg keys theirs ↔
      (bar keys ≤ (backers cfg.column keys mine).card ↔
        bar keys ≤ (backers cfg.column keys theirs).card) := by
  unfold verdict statusOf
  by_cases one : bar keys ≤ (backers cfg.column keys mine).card <;>
    by_cases two : bar keys ≤ (backers cfg.column keys theirs).card <;> simp [one, two]

/-- The status of a settled hub is the verdict of the votes it decided on. -/
theorem PeerSound.settled_iff {signed : List (String × String)} {p : Peer} {s : Status}
    (sound : PeerSound cfg keys signed p) :
    (p.row.status = s ∧ s ≠ .voting) ↔ ∃ heard, p.decidedOn = some heard ∧ verdict cfg keys heard = s := by
  rw [sound.status]
  cases decided : p.decidedOn with
  | none =>
    constructor
    · rintro ⟨same, open'⟩
      exact absurd same.symm open'
    · rintro ⟨heard, impossible, -⟩
      exact absurd impossible (by simp)
  | some heard =>
    constructor
    · rintro ⟨same, -⟩
      exact ⟨heard, rfl, same⟩
    · rintro ⟨other, same, verdict⟩
      rw [Option.some.injEq] at same
      rw [← verdict, ← same]
      exact ⟨rfl, verdict_settled heard⟩

theorem agree_iff_alike (sound : Sound cfg keys w) : Agree w ↔ Alike cfg keys w := by
  constructor
  · intro agree i j mine own theirs other
    obtain ⟨ours, settled⟩ := (sound i).settled_iff.mpr ⟨mine, own, rfl⟩
    obtain ⟨yours, closed⟩ := (sound j).settled_iff.mpr ⟨theirs, other, rfl⟩
    rw [← verdict_same_iff, ← ours, ← yours]
    exact agree i j (by rw [ours]; exact settled) (by rw [yours]; exact closed)
  · intro alike i j settled closed
    obtain ⟨mine, own, ours⟩ := (sound i).settled_iff.mp ⟨rfl, settled⟩
    obtain ⟨theirs, other, yours⟩ := (sound j).settled_iff.mp ⟨rfl, closed⟩
    rw [← ours, ← yours, verdict_same_iff]
    exact alike i j mine own theirs other

theorem act_decided_on (p : Peer) (i : ι) (env : Env) (a : Act) :
    (act cfg i env p a).peer.decidedOn = (settles cfg p a).or p.decidedOn := by
  cases a with
  | resume n =>
    simp only [act, settles]
    split
    · rename_i free
      simp [Peer.silent, deciding, free]
    · rename_i t held
      exact resume_decided_on held
  | vote choice =>
    simp only [act, settles, startVote, Option.none_or]
    repeat' split
    all_goals rfl
  | deliver m =>
    simp only [act, settles, handleMessage, handleVote, handleCatchUpResult, handleResult,
      handleResultRequest, Option.none_or]
    repeat' split
    all_goals rfl
  | checkExpired =>
    simp only [act, settles, Option.none_or]
    split <;> rfl
  | requestMissing => rfl
  | fail n =>
    simp only [act, settles, Option.none_or]
    split
    · rfl
    · unfold failStatement
      split <;> rfl
  | restart => rfl

theorem settles_open {p : Peer} {a : Act} {heard : List Ballot}
    (settling : settles cfg p a = some heard) : p.row.status = .voting := by
  cases a with
  | resume n =>
    rw [settles, deciding] at settling
    split at settling
    · exact absurd settling (by simp)
    · rename_i open'
      rw [not_not] at open'
      exact open'
  | _ => exact absurd settling (by simp [settles])

/-- Backers signed an approval. -/
theorem backers_signed {signed : List (String × String)} {heard : List Ballot}
    (made : ∀ b ∈ heard, Made cfg signed b) {k : String}
    (member : k ∈ backers cfg.column keys heard) : k ∈ keys ∧ SignedApprove cfg signed k := by
  obtain ⟨listed, approves⟩ := Finset.mem_filter.mp member
  obtain ⟨b, late, choice⟩ := Option.bind_eq_some_iff.mp approves
  obtain ⟨inside, key⟩ := LatestWins.latest_of_mem late
  obtain ⟨seq, named⟩ := made b inside
  rw [key] at named
  exact ⟨List.mem_toFinset.mp listed, b.voterPubkey, b.vote, seq, key, choice, named⟩

end Decisions

section Runs
variable {ι : Type} [DecidableEq ι] {cfg : Config ι} {keys : List String} {w : World ι}

theorem step_sound (sound : Sound cfg keys w) {e : Event ι} (authentic : Authentic cfg w e) :
    Sound cfg keys (step cfg w e) := by
  cases e with
  | sign key payload =>
    exact fun i => (sound i).mono (List.subset_cons_self _ _)
  | act i env a =>
    intro j
    by_cases same : j = i
    · subst same
      simp only [step, Function.update_self]
      refine act_sound (sound j) a ?_
      intro m delivered
      subst delivered
      exact authentic.1
    · simp only [step, Function.update_of_ne same]
      exact (sound j).mono (List.subset_append_right _ _)

theorem run_sound {es : List (Event ι)} (sound : Sound cfg keys w)
    (authentic : Admitted (step cfg) (Authentic cfg) w es) : Sound cfg keys (run (step cfg) w es) :=
  run_invariant (Sound cfg keys) (fun _ _ held allowed => step_sound held allowed) sound authentic

/-- A step keeps the decisions alike exactly when it keeps within the margin. -/
theorem step_alike_iff (sound : Sound cfg keys w) (e : Event ι) :
    Alike cfg keys (step cfg w e) ↔ Alike cfg keys w ∧ Margined cfg keys w e := by
  cases e with
  | sign key payload => exact (and_iff_left trivial).symm
  | act i env a =>
    have decides : (act cfg i env (w.peers i) a).peer.decidedOn =
        (settles cfg (w.peers i) a).or (w.peers i).decidedOn := act_decided_on (w.peers i) i env a
    cases settling : settles cfg (w.peers i) a with
    | none =>
      rw [settling, Option.none_or] at decides
      have kept : ∀ j, ((step cfg w (.act i env a)).peers j).decidedOn = (w.peers j).decidedOn := by
        intro j
        by_cases same : j = i
        · subst same
          simp only [step, Function.update_self]
          exact decides
        · simp only [step, Function.update_of_ne same]
      have margin : Margined cfg keys w (.act i env a) := by
        intro heard now
        rw [settling] at now
        exact absurd now (by simp)
      simp only [Alike, kept]
      exact (and_iff_left margin).symm
    | some heard =>
      rw [settling, Option.some_or] at decides
      have undecided : (w.peers i).decidedOn = none := by
        have status := (sound i).status
        rw [settles_open settling] at status
        cases decided : (w.peers i).decidedOn with
        | none => rfl
        | some earlier =>
          rw [decided] at status
          exact absurd status.symm (verdict_settled earlier)
      have mine : ((step cfg w (.act i env a)).peers i).decidedOn = some heard := by
        simp only [step, Function.update_self]
        exact decides
      have others : ∀ j, j ≠ i →
          ((step cfg w (.act i env a)).peers j).decidedOn = (w.peers j).decidedOn := by
        intro j apart
        simp only [step, Function.update_of_ne apart]
      have elsewhere : ∀ {j : ι} {earlier : List Ballot}, (w.peers j).decidedOn = some earlier →
          ((step cfg w (.act i env a)).peers j).decidedOn = some earlier := by
        intro j earlier decided
        rw [others j (fun same => by rw [same, undecided] at decided; exact absurd decided (by simp))]
        exact decided
      constructor
      · intro alike
        refine ⟨fun j k own left their right => ?_, ?_⟩
        · exact alike j k own (elsewhere left) their (elsewhere right)
        · intro now settled j earlier decided
          rw [settling, Option.mem_some_iff] at settled
          rw [within_margin_iff, ← settled]
          exact alike j i earlier (elsewhere decided) heard mine
      · rintro ⟨alike, margin⟩
        have joins : ∀ j, ∀ earlier ∈ (w.peers j).decidedOn,
            (bar keys ≤ (backers cfg.column keys earlier).card ↔
              bar keys ≤ (backers cfg.column keys heard).card) :=
          fun j earlier decided => within_margin_iff.mp (margin heard settling j earlier decided)
        intro j k own left their right
        by_cases one : j = i
        · rw [one, mine, Option.mem_some_iff] at left
          rw [← left]
          by_cases two : k = i
          · rw [two, mine, Option.mem_some_iff] at right
            rw [← right]
          · rw [others k two] at right
            exact (joins k their right).symm
        · rw [others j one] at left
          by_cases two : k = i
          · rw [two, mine, Option.mem_some_iff] at right
            rw [← right]
            exact joins j own left
          · rw [others k two] at right
            exact alike j k own left their right

end Runs
section Evaluation
variable {ι : Type} {cfg : Config ι} {i : ι} {env : Env} {p : Peer} {n : ℕ}

theorem act_started :
    (∀ choice, act cfg i env p (.vote choice) = (startVote cfg i p choice).silent) ∧
    (∀ m, act cfg i env p (.deliver m) = (handleMessage cfg env p m).silent) ∧
    act cfg i env p .checkExpired = (if overdue env p then p.await .expired else p).silent :=
  ⟨fun _ => rfl, fun _ => rfl, rfl⟩

theorem act_resumed {t : Task} (held : SlotHeap.slotAt p.tasks n = some t) :
    act cfg i env p (.resume n) = resume cfg i env p n t := by
  simp only [act, held]

theorem row_inserted (b : Ballot) (choice : Choice) :
    upsertRow none b choice = ⟨b.voterPubkey, choice, b.signature, b.seq⟩ := by
  rw [upsertRow]

theorem row_kept {row : VoteRow} {b : Ballot} (old : b.seq ≤ row.voteSeq) (choice : Choice) :
    upsertRow (some row) b choice = row := by
  simp only [upsertRow, Nat.not_lt.mpr old, if_false]

theorem table_empty : (OrderedMap.empty : VoteTable).entries = [] := by
  rw [OrderedMap.empty]

theorem table_set (votes : VoteTable) (k : String) (row : VoteRow) :
    (votes.set k row).entries =
      if k ∈ votes.entries.map Prod.fst then votes.entries.map (OrderedMap.put k row)
      else votes.entries ++ [(k, row)] := by
  simp only [OrderedMap.set]
  split <;> rfl

theorem status_texts : Status.failed.text = "failed" ∧ Status.passed.text = "passed" := ⟨rfl, rfl⟩

theorem snapshot_read {raw : Value} {items : List Value} {ms : List Member}
    (array : snapshotArray raw = some items) (some' : items.length ≠ 0)
    (few : items.length ≤ govSnapshotMaxValidators) (collected : collectMembers [] items = some ms) :
    ∃ e, parseSnapshot raw = some e ∧ e.members = ms.insertionSort byPubkey := by
  rw [parseSnapshot, array]
  simp only [some', Nat.not_lt.mpr few, or_self, if_false]
  split
  · rename_i failed
    rw [collected] at failed
    exact absurd failed (by simp)
  · rename_i found
    rw [collected, Option.some.injEq] at found
    exact ⟨_, rfl, by rw [found]⟩

theorem vote_ingested {e : Electorate} (held : parseSnapshot p.row.validatorSnapshot = some e)
    (v : Evidence) :
    ingestVote cfg p (some v) = if ingestible cfg e v then upsertVote cfg p v.ballot else p := by
  simp only [ingestVote, held]

theorem retally_read {e : Electorate} (held : parseSnapshot p.row.validatorSnapshot = some e)
    (rows : List VoteRow) : retally cfg p rows = computeTally cfg.validatorSet rows (some e) := by
  rw [retally, held]

end Evaluation

section Sample

inductive Seat where
  | h0
  | h1
  deriving DecidableEq

def Seat.letter : Seat → Char
  | .h0 => 'a'
  | .h1 => 'b'

def Seat.key (h : Seat) : String := String.ofList (List.replicate 64 h.letter)

def Seat.addr (h : Seat) : String := String.ofList ['h', h.letter]

def seats : List Seat := [.h0, .h1]

def sampleKeys : List String := seats.map Seat.key

/- A signature is the payload it was made over, which names its key. -/
def sampleConfig : Config Seat where
  proposalId := "gov:P:1"
  validatorSet := seats.map (fun h => ⟨h.key, some h.addr⟩)
  leaderRound := 0
  tallyInterval := 60000
  column := ⟨fun s =>
    if s = "approve" then some .approve else if s = "reject" then some .reject else none, rfl, rfl⟩
  verify := fun payload signature _ => signature = payload
  addr := Seat.addr
  pubkey := fun h => some h.key
  sign := fun _ payload => payload

def sampleSnapshot : Value :=
  .text (JsonText.stringify (.array (seats.map (fun h =>
    .object [("pubkey", .text h.key), ("addr", .text h.addr)]))))

/- Every hub has recorded the proposal, open until 1000. -/
def recorded : World Seat where
  peers := fun _ => ⟨⟨1000, sampleSnapshot, .voting⟩, OrderedMap.empty, none, [], [], none⟩
  signed := []
  sent := []

def at' (now : ℤ) : Env := ⟨now, now, false, some (seats.map Seat.addr), true, true⟩

def resumes (h : Seat) (now : ℤ) (n times : ℕ) : List (Event Seat) :=
  List.replicate times (.act h (at' now) (.resume n))

def casts (h : Seat) : List (Event Seat) := .act h (at' 10) (.vote .approve) :: resumes h 10 0 3

def voteOf (h : Seat) : Evidence :=
  let seq := .number (.ofNat 10)
  ⟨h.key, "approve", voteSigningPayload "gov:P:1" "approve" h.key seq, seq⟩

def hears (h voter : Seat) (n : ℕ) : List (Event Seat) :=
  .act h (at' 20) (.deliver ⟨voter.addr, .vote (voteOf voter)⟩) :: resumes h 20 n 2

def resultOf (status : String) (voters : List Seat) : ResultData :=
  ⟨status, some voters.length, some 0, some voters.length, some 2,
    some (voters.map (fun h => some (voteOf h))), false⟩

/- h1 hears h0, the leader h0 hears the other listed hubs and tallies, and h1 takes its result. -/
def sampleRun (status : String) (voters : List Seat) : List (Event Seat) :=
  casts .h0 ++ casts .h1 ++ hears .h1 .h0 1 ++ (voters.tail.zipIdx 1).flatMap (fun v => hears .h0 v.1 v.2) ++
    .act .h0 (at' 2000) .checkExpired :: resumes .h0 2000 voters.length 2 ++
    .act .h1 (at' 2000) (.deliver ⟨Seat.addr .h0, .result (resultOf status voters)⟩) ::
      resumes .h1 2000 2 (voters.length + 3)

@[irreducible] def splitRun : List (Event Seat) := sampleRun "failed" [.h0]

@[irreducible] def togetherRun : List (Event Seat) := sampleRun "passed" [.h0, .h1]

theorem key_chars (h : Seat) : h.key.toList = List.replicate 64 h.letter := by
  rw [Seat.key, String.toList_ofList]

theorem key_nonempty (h : Seat) : h.key ≠ "" := by
  simp [Seat.key]

theorem key_lower (h : Seat) : asciiLower h.key = h.key := by
  rw [asciiLower, key_chars, List.map_replicate, Seat.key]
  cases h <;> rfl

theorem key_inj {h h' : Seat} : h.key = h'.key ↔ h = h' := by
  constructor
  · intro same
    have chars := congrArg String.toList same
    rw [key_chars, key_chars] at chars
    cases h <;> cases h' <;> simp_all [Seat.letter]
  · exact congrArg _

theorem sample_seq : normalizeVoteSeq (.number (.ofNat 10)) = 10 := by
  decide +kernel

def sampleElectorate : Electorate :=
  ⟨[⟨Seat.h0.key, some Seat.h0.addr⟩, ⟨Seat.h1.key, some Seat.h1.addr⟩], by simp [key_inj]⟩

def sampleItems : List Value :=
  seats.map (fun h => .object [("pubkey", .text h.key), ("addr", .text h.addr)])

theorem sample_snapshot_array : snapshotArray sampleSnapshot = some sampleItems := by
  have plain : JsonText.Plain (.array sampleItems) := by
    simp [sampleItems, seats, JsonText.Plain, JsonText.PlainItems, JsonText.PlainFields, JsonText.PlainField]
    decide
  have short : ¬ govSnapshotMaxBytes < (JsonText.stringify (.array sampleItems)).length := by
    rw [JsonText.stringify, String.length_ofList]
    decide +kernel
  rw [show sampleSnapshot = .text (JsonText.stringify (.array sampleItems)) from rfl]
  simp only [snapshotArray, short, if_false, JsonText.parse_stringify plain]

theorem sample_snapshot_read : parseSnapshot sampleSnapshot = some sampleElectorate := by
  have collected : collectMembers [] sampleItems = some sampleElectorate.members := by
    simp [sampleItems, seats, collectMembers, readMember, sampleElectorate, key_lower, key_nonempty, key_inj,
      Value.field, Value.textOf]
  have sorted : sampleElectorate.members.insertionSort byPubkey = sampleElectorate.members := by
    refine List.Pairwise.insertionSort_eq ?_
    simp [byPubkey, sampleElectorate, key_chars]
    decide
  obtain ⟨⟨ms, distinct⟩, parsed, members⟩ :=
    snapshot_read sample_snapshot_array (by simp [sampleItems, seats])
      (by simp [sampleItems, seats, govSnapshotMaxValidators]) collected
  rw [sorted] at members
  rw [parsed, Option.some.injEq, Electorate.mk.injEq]
  exact members

/- The two runs with their admission and what the hubs settle on, one statement after the other. -/
theorem sample_runs :
    (Admitted (step sampleConfig) (Authentic sampleConfig) recorded splitRun ∧
      ((run (step sampleConfig) recorded splitRun).peers .h0).row.status = .failed ∧
      ((run (step sampleConfig) recorded splitRun).peers .h1).row.status = .passed) ∧
    Admitted (step sampleConfig) (Authentic sampleConfig) recorded togetherRun ∧
      ((run (step sampleConfig) recorded togetherRun).peers .h1).row.status = .passed := by
  have keys : sampleElectorate.keys = [Seat.h0.key, Seat.h1.key] := rfl
  have members : sampleElectorate.members =
      [⟨Seat.h0.key, some Seat.h0.addr⟩, ⟨Seat.h1.key, some Seat.h1.addr⟩] := rfl
  simp [splitRun, togetherRun, sampleRun, casts, hears, resumes, voteOf, resultOf, at', recorded,
    sampleConfig, seats, Seat.addr, Seat.letter, keys, members, sample_snapshot_read, sample_seq,
    key_lower, key_nonempty, key_inj, status_texts, Choice.text, Admitted, run, Authentic, Genuine,
    Message.evidence, step, act_started, act_resumed, SlotHeap.slotAt, Peer.await, Peer.next,
    Peer.finish, Peer.silent, List.replicate, handleMessage, handleVote, handleResult, startVote,
    castVote, resume, voteIsAuthentic, voteCountsOnThisProposal, upsertVote, setGovernanceVote,
    row_inserted, row_kept, table_empty, table_set, OrderedMap.put, OrderedMap.get_set_other,
    VoteTable.rows, Ballot.key, Evidence.ballot, overdue, canTallyProposal, isTallyLeader,
    getProposalLeader, isKnownSender, tallyProposal, retally_read, computeTally, countedVotes, approvalBar,
    statusOf, updateGovernanceProposal, resultData, voteEvidence, resultAdmitted,
    resultComesFromTallyLeader, openResult, evidenceOf, govSnapshotMaxValidators, vote_ingested,
    ingestible, applyRetally]

theorem sample_start : Start sampleKeys recorded where
  locked := by
    intro i
    exact ⟨sampleElectorate, sample_snapshot_read, List.Perm.refl _⟩
  open' := fun _ => ⟨rfl, rfl⟩
  empty := fun _ => ⟨rfl, rfl, rfl⟩

end Sample
end XChainHub.Governance
