import XChainHub.Governance.Hub

/-!
When the honest hubs of a federation settle a proposal alike. A hub settles by the votes that
reached its table: of each member the one with the highest seq, the first of these. The members
who approve there are its backers, and two hubs agree when their backers lie on one side of the
approval bar.
-/
namespace XChainHub.Governance
open ScriptValue LatestWins GuardedRuns
open StakeWeightedQuorum (asciiLower)
open SlotHeap (slotAt slot_nil slot_set_cases slot_push_cases)

section Tables
variable {column : VoteColumn} {votes : VoteTable} {heard : List Ballot} {keys : List String}

def latestVote (heard : List Ballot) (k : String) : Option Ballot :=
  latestOf Ballot.seq Ballot.key heard k

/- A row of the table is the latest vote of its key, but for the spelling of the voter. -/
def RowOf (column : VoteColumn) (k : String) : Option VoteRow → Option Ballot → Prop
  | none, none => True
  | some row, some b =>
    asciiLower row.voterPubkey = k ∧ column.value b.vote = some row.vote ∧ row.voteSeq = b.seq
  | _, _ => False

def TableOf (column : VoteColumn) (votes : VoteTable) (heard : List Ballot) : Prop :=
  ∀ k, RowOf column k (votes.get k) (latestVote heard k)

theorem empty_table_of : TableOf column OrderedMap.empty [] := fun _ => trivial

theorem upsert_row_of {held : Option VoteRow} {before : Option Ballot} {b : Ballot} {choice : Choice}
    (row : RowOf column b.key held before) (stored : column.value b.vote = some choice) :
    RowOf column b.key (some (upsertRow held b choice)) (newer Ballot.seq before b) := by
  cases held with
  | none =>
    cases before with
    | none => exact ⟨rfl, stored, rfl⟩
    | some c => exact absurd row (by simp [RowOf])
  | some r =>
    cases before with
    | none => exact absurd row (by simp [RowOf])
    | some c =>
      obtain ⟨spelled, choiceOf, seqOf⟩ := row
      simp only [upsertRow, newer, seqOf]
      split
      · exact ⟨spelled, stored, rfl⟩
      · exact ⟨spelled, choiceOf, seqOf⟩

/-- The vote table keeps the latest vote of every key. -/
theorem TableOf.upsert {b : Ballot} {choice : Choice} (table : TableOf column votes heard)
    (stored : column.value b.vote = some choice) :
    TableOf column (setGovernanceVote column votes b) (heard ++ [b]) := by
  intro k
  rw [setGovernanceVote, stored]
  simp only
  by_cases same : k = b.key
  · subst same
    rw [OrderedMap.get_set_same, latestVote, latest_of_concat_same]
    exact upsert_row_of (table b.key) stored
  · rw [OrderedMap.get_set_other same, latestVote,
      latest_of_concat_other Ballot.seq Ballot.key heard (Ne.symm same)]
    exact table k

/- The members whose latest vote is an approval. -/
def backers (column : VoteColumn) (keys : List String) (heard : List Ballot) : Finset String :=
  keys.toFinset.filter (fun k =>
    (latestVote heard k).bind (fun b => column.value b.vote) = some .approve)

theorem row_approves (table : TableOf column votes heard) {k : String} :
    (∃ row, (k, row) ∈ votes.entries ∧ row.vote = .approve) ↔
      (latestVote heard k).bind (fun b => column.value b.vote) = some .approve := by
  have row := table k
  cases held : votes.get k with
  | none =>
    rw [held] at row
    cases late : latestVote heard k with
    | none =>
      constructor
      · rintro ⟨r, member, -⟩
        rw [OrderedMap.get_of_mem member] at held
        exact absurd held (by simp)
      · exact fun impossible => absurd impossible (by simp)
    | some b =>
      rw [late] at row
      exact absurd row (by simp [RowOf])
  | some r =>
    rw [held] at row
    cases late : latestVote heard k with
    | none =>
      rw [late] at row
      exact absurd row (by simp [RowOf])
    | some b =>
      rw [late] at row
      rw [Option.bind_some, row.2.1, Option.some.injEq]
      constructor
      · rintro ⟨other, member, approves⟩
        rw [OrderedMap.get_of_mem member, Option.some.injEq] at held
        rw [← held]
        exact approves
      · exact fun approves => ⟨r, OrderedMap.mem_of_get held, approves⟩

theorem row_key (table : TableOf column votes heard) {k : String} {row : VoteRow}
    (member : (k, row) ∈ votes.entries) : asciiLower row.voterPubkey = k := by
  have held := table k
  rw [OrderedMap.get_of_mem member] at held
  cases late : latestVote heard k with
  | none =>
    rw [late] at held
    exact absurd held (by simp [RowOf])
  | some b =>
    rw [late] at held
    exact held.1

/-- The approvals of a tally count the backers. -/
theorem approvals_eq_backers (table : TableOf column votes heard) {e : Electorate}
    (same : e.keys.Perm keys) (validatorSet : List Member) :
    (computeTally validatorSet (VoteTable.rows votes) (some e)).approvals =
      (backers column keys heard).card := by
  let counts : String × VoteRow → Bool :=
    fun x => (asciiLower x.2.voterPubkey ∈ e.keys) && x.2.vote = .approve
  have length : (computeTally validatorSet (VoteTable.rows votes) (some e)).approvals =
      ((votes.entries.filter counts).map Prod.fst).length := by
    simp only [computeTally, countedVotes, VoteTable.rows, List.filter_map, List.filter_filter,
      List.length_map, counts, Function.comp_def]
    congr 1
    apply List.filter_congr
    intro x _
    exact Bool.and_comm _ _
  have distinct : ((votes.entries.filter counts).map Prod.fst).Nodup :=
    votes.nodup.sublist (List.filter_sublist.map Prod.fst)
  rw [length, ← List.toFinset_card_of_nodup distinct]
  congr 1
  ext k
  rw [List.mem_toFinset, backers, Finset.mem_filter, List.mem_toFinset, ← same.mem_iff,
    ← row_approves table, List.mem_map]
  constructor
  · rintro ⟨⟨key, row⟩, member, rfl⟩
    obtain ⟨inside, counted⟩ := List.mem_filter.mp member
    have parts : asciiLower row.voterPubkey ∈ e.keys ∧ row.vote = .approve := by
      simpa [counts] using counted
    rw [row_key table inside] at parts
    exact ⟨parts.1, row, inside, parts.2⟩
  · rintro ⟨listed, row, inside, approves⟩
    refine ⟨(k, row), List.mem_filter.mpr ⟨inside, ?_⟩, rfl⟩
    simp [counts, row_key table inside, listed, approves]

def bar (keys : List String) : ℕ := approvalBar keys.length

/- A tally over a table approves exactly when the backers reach the bar. -/
theorem tally_approved_iff (table : TableOf column votes heard) {e : Electorate}
    (same : e.keys.Perm keys) (validatorSet : List Member) :
    (computeTally validatorSet (VoteTable.rows votes) (some e)).approved = true ↔
      bar keys ≤ (backers column keys heard).card := by
  have size : e.members.length = keys.length := by
    rw [← same.length_eq, Electorate.keys, List.length_map]
  rw [approved_iff, approvals_eq_backers table same, size]
  rfl

end Tables

section Margin

/- The members whose approval one hub counts and the other does not leave the count on its
   side of the bar. -/
def WithinMargin (bar : ℕ) (before after : Finset String) : Prop :=
  if bar ≤ before.card then (before \ after).card + bar ≤ before.card + (after \ before).card
  else before.card + (after \ before).card < bar + (before \ after).card

theorem within_margin_iff {bar : ℕ} {before after : Finset String} :
    WithinMargin bar before after ↔ (bar ≤ before.card ↔ bar ≤ after.card) := by
  have mine := Finset.card_sdiff_add_card_inter before after
  have theirs := Finset.card_sdiff_add_card_inter after before
  rw [Finset.inter_comm] at theirs
  unfold WithinMargin
  split <;> constructor <;> omega

end Margin

section Settling
variable {ι : Type} (cfg : Config ι)

/- The votes that a hub is about to settle on when a handler resumes, none where it does not
   settle. -/
def deciding (p : Peer) (n : ℕ) : Option (List Ballot) :=
  if p.row.status ≠ .voting then none
  else
    match slotAt p.tasks n with
    | some (.tallied _ heard) => some heard
    | some (.retallied .result _ heard) => some heard
    | some (.retallied (.catchUp r) rows heard) =>
      if catchUpMatches r (retally cfg p rows) then some heard else none
    | _ => none

def settles (p : Peer) : Act → Option (List Ballot)
  | .resume n => deciding cfg p n
  | _ => none

/- A hub that settles keeps within the margin of every hub that has settled before it. -/
def Margined (keys : List String) (w : World ι) : Event ι → Prop
  | .sign _ _ => True
  | .act i _ a => ∀ heard ∈ settles cfg (w.peers i) a, ∀ j, ∀ earlier ∈ (w.peers j).decidedOn,
      WithinMargin (bar keys) (backers cfg.column keys earlier) (backers cfg.column keys heard)

/- No two hubs have settled with different statuses. -/
def Agree (w : World ι) : Prop :=
  ∀ i j, (w.peers i).row.status ≠ .voting → (w.peers j).row.status ≠ .voting →
    (w.peers i).row.status = (w.peers j).row.status

/- A member signed a vote for the proposal that the vote table stores as an approval. -/
def SignedApprove (signed : List (String × String)) (member : String) : Prop :=
  ∃ voterPubkey vote seq, asciiLower voterPubkey = member ∧ cfg.column.value vote = some .approve ∧
    (member, voteSigningPayload cfg.proposalId vote voterPubkey seq) ∈ signed

/- Every hub has recorded the proposal with the same locked keys, and no vote yet. -/
structure Start (keys : List String) (w : World ι) : Prop where
  locked : ∀ i, ∃ e, parseSnapshot (w.peers i).row.validatorSnapshot = some e ∧ e.keys.Perm keys
  open' : ∀ i, (w.peers i).row.status = .voting ∧ (w.peers i).decidedOn = none
  empty : ∀ i, (w.peers i).votes = OrderedMap.empty ∧ (w.peers i).heard = [] ∧ (w.peers i).tasks = []

end Settling

section Invariant
variable {ι : Type} {cfg : Config ι} {keys : List String} {signed more : List (String × String)}
  {p : Peer} {n : ℕ} {t u : Task}

variable (cfg) in
def Made (signed : List (String × String)) (b : Ballot) : Prop :=
  ∃ seq, (b.key, voteSigningPayload cfg.proposalId b.vote b.voterPubkey seq) ∈ signed

variable (cfg) in
/- What a handler read from the vote table. -/
def Reading (signed : List (String × String)) (rows : List VoteRow) (heard : List Ballot) : Prop :=
  (∃ votes, TableOf cfg.column votes heard ∧ rows = VoteTable.rows votes) ∧
    ∀ b ∈ heard, Made cfg signed b

variable (cfg) in
def AllGenuine (signed : List (String × String)) (evidence : List (Option Evidence)) : Prop :=
  ∀ v, some v ∈ evidence → Genuine cfg signed v

variable (cfg) in
def TaskSound (signed : List (String × String)) : Task → Prop
  | .ballotFound b _ | .ballotAdmitted b => Made cfg signed b
  | .resultFound _ r _ | .catchUpFound r => AllGenuine cfg signed (evidenceOf r.votes)
  | .ingesting _ rest => AllGenuine cfg signed rest
  | .retallied _ rows heard | .tallied rows heard => Reading cfg signed rows heard
  | _ => True

variable (cfg) in
def verdict (keys : List String) (heard : List Ballot) : Status :=
  statusOf (bar keys ≤ (backers cfg.column keys heard).card)

variable (cfg keys) in
structure PeerSound (signed : List (String × String)) (p : Peer) : Prop where
  locked : ∃ e, parseSnapshot p.row.validatorSnapshot = some e ∧ e.keys.Perm keys
  reading : TableOf cfg.column p.votes p.heard ∧ ∀ b ∈ p.heard, Made cfg signed b
  tasks : ∀ n t, slotAt p.tasks n = some t → TaskSound cfg signed t
  status : p.row.status = p.decidedOn.elim .voting (verdict cfg keys)
  decided : ∀ heard ∈ p.decidedOn, ∀ b ∈ heard, Made cfg signed b

theorem Made.mono {b : Ballot} (made : Made cfg signed b) (grown : signed ⊆ more) :
    Made cfg more b := by
  obtain ⟨seq, member⟩ := made
  exact ⟨seq, grown member⟩

theorem TaskSound.mono (sound : TaskSound cfg signed t) (grown : signed ⊆ more) :
    TaskSound cfg more t := by
  have genuine : ∀ evidence, AllGenuine cfg signed evidence → AllGenuine cfg more evidence :=
    fun evidence all v member verified => grown (all v member verified)
  have reading : ∀ rows heard, Reading cfg signed rows heard → Reading cfg more rows heard :=
    fun rows heard read => ⟨read.1, fun b member => (read.2 b member).mono grown⟩
  cases t with
  | ballotFound b _ => exact Made.mono sound grown
  | ballotAdmitted b => exact Made.mono sound grown
  | resultFound _ r _ => exact genuine _ sound
  | catchUpFound r => exact genuine _ sound
  | ingesting _ rest => exact genuine _ sound
  | retallied _ rows heard => exact reading _ _ sound
  | tallied rows heard => exact reading _ _ sound
  | _ => trivial

theorem PeerSound.mono (sound : PeerSound cfg keys signed p) (grown : signed ⊆ more) :
    PeerSound cfg keys more p :=
  ⟨sound.locked, ⟨sound.reading.1, fun b member => (sound.reading.2 b member).mono grown⟩,
    fun n t held => (sound.tasks n t held).mono grown, sound.status,
    fun heard held b member => (sound.decided heard held b member).mono grown⟩

theorem PeerSound.await (sound : PeerSound cfg keys signed p) (task : TaskSound cfg signed t) :
    PeerSound cfg keys signed (p.await t) := by
  refine ⟨sound.locked, sound.reading, ?_, sound.status, sound.decided⟩
  intro m u found
  rcases slot_push_cases found with old | new
  · exact sound.tasks m u old
  · exact new ▸ task

theorem PeerSound.next (sound : PeerSound cfg keys signed p) (held : slotAt p.tasks n = some u)
    (task : TaskSound cfg signed t) : PeerSound cfg keys signed (p.next n t) := by
  refine ⟨sound.locked, sound.reading, ?_, sound.status, sound.decided⟩
  intro m v found
  rcases slot_set_cases held found with ⟨-, now⟩ | ⟨-, old⟩
  · rw [Option.some.injEq] at now
    exact now ▸ task
  · exact sound.tasks m v old

theorem PeerSound.finish (sound : PeerSound cfg keys signed p) (held : slotAt p.tasks n = some u) :
    PeerSound cfg keys signed (p.finish n) := by
  refine ⟨sound.locked, sound.reading, ?_, sound.status, sound.decided⟩
  intro m v found
  rcases slot_set_cases held found with ⟨-, now⟩ | ⟨-, old⟩
  · exact absurd now (by simp)
  · exact sound.tasks m v old

theorem PeerSound.request (sound : PeerSound cfg keys signed p) (r : Option ℤ) :
    PeerSound cfg keys signed { p with resultRequest := r } :=
  ⟨sound.locked, sound.reading, sound.tasks, sound.status, sound.decided⟩

theorem PeerSound.upsert (sound : PeerSound cfg keys signed p) {b : Ballot}
    (made : Made cfg signed b) : PeerSound cfg keys signed (upsertVote cfg p b) := by
  refine ⟨sound.locked, ?_, sound.tasks, sound.status, sound.decided⟩
  unfold upsertVote
  cases stored : cfg.column.value b.vote with
  | none =>
    rw [setGovernanceVote, stored]
    exact sound.reading
  | some choice =>
    refine ⟨sound.reading.1.upsert stored, ?_⟩
    intro c member
    rcases List.mem_append.mp member with old | new
    · exact sound.reading.2 c old
    · rw [List.mem_singleton.mp new]
      exact made

/-- A re-tally reads the verdict of the votes behind its rows. -/
theorem retally_verdict (sound : PeerSound cfg keys signed p) {rows : List VoteRow}
    {heard : List Ballot} (read : Reading cfg signed rows heard) :
    statusOf (retally cfg p rows).approved = verdict cfg keys heard := by
  obtain ⟨e, parsed, same⟩ := sound.locked
  obtain ⟨⟨votes, table, shape⟩, -⟩ := read
  unfold retally verdict
  rw [parsed, shape]
  congr 1
  rw [Bool.eq_iff_iff, decide_eq_true_iff]
  exact tally_approved_iff table same cfg.validatorSet

theorem PeerSound.update (sound : PeerSound cfg keys signed p) {rows : List VoteRow}
    {heard : List Ballot} (read : Reading cfg signed rows heard) :
    PeerSound cfg keys signed
      (updateGovernanceProposal p (statusOf (retally cfg p rows).approved) heard) := by
  unfold updateGovernanceProposal
  split
  · refine ⟨sound.locked, sound.reading, sound.tasks, retally_verdict sound read, ?_⟩
    intro other same
    rw [Option.mem_some_iff] at same
    rw [← same]
    exact read.2
  · exact sound

end Invariant

section Steps
variable {ι : Type} {cfg : Config ι} {keys : List String} {signed : List (String × String)}
  {p : Peer} {n : ℕ} {t : Task} {i : ι} {env : Env}

theorem genuine_made {v : Evidence} (genuine : Genuine cfg signed v)
    (verified : cfg.verify (voteSigningPayload cfg.proposalId v.vote v.voterPubkey v.seq) v.signature
      v.voterPubkey = true) : Made cfg signed v.ballot :=
  ⟨v.seq, genuine verified⟩

theorem PeerSound.ingest (sound : PeerSound cfg keys signed p) {v : Option Evidence}
    (genuine : ∀ w, v = some w → Genuine cfg signed w) :
    PeerSound cfg keys signed (ingestVote cfg p v) := by
  unfold ingestVote
  split
  · rename_i w e _
    split
    · rename_i admitted
      unfold ingestible at admitted
      rw [Bool.and_eq_true] at admitted
      exact sound.upsert (genuine_made (genuine w rfl) admitted.2)
    · exact sound
  · exact sound

theorem ingest_tasks (v : Option Evidence) : (ingestVote cfg p v).tasks = p.tasks := by
  unfold ingestVote
  split
  · split <;> rfl
  · rfl

theorem update_tasks (s : Status) (heard : List Ballot) :
    (updateGovernanceProposal p s heard).tasks = p.tasks := by
  unfold updateGovernanceProposal
  split <;> rfl

theorem PeerSound.table_read (sound : PeerSound cfg keys signed p) :
    Reading cfg signed (VoteTable.rows p.votes) p.heard :=
  ⟨⟨p.votes, sound.reading.1, rfl⟩, sound.reading.2⟩

theorem PeerSound.applied (sound : PeerSound cfg keys signed p) (held : slotAt p.tasks n = some t)
    {rows : List VoteRow} {heard : List Ballot} (read : Reading cfg signed rows heard)
    (trigger : Trigger) : PeerSound cfg keys signed (applyRetally cfg p n trigger rows heard) := by
  have updated := sound.update read
  unfold applyRetally
  cases trigger with
  | result => exact updated.finish (by rw [update_tasks]; exact held)
  | catchUp r =>
    simp only
    split
    · exact updated.next (by rw [update_tasks]; exact held) trivial
    · exact sound.finish held

/-- Every handler keeps a hub sound as it resumes. -/
theorem resume_sound (sound : PeerSound cfg keys signed p) (held : slotAt p.tasks n = some t) :
    PeerSound cfg keys ((resume cfg i env p n t).signed ++ signed) (resume cfg i env p n t).peer := by
  have task := sound.tasks n t held
  cases t with
  | voteFound choice inVoting =>
    simp only [resume]
    split
    · exact sound.next held trivial
    · exact sound.finish held
  | voteSeq choice prior =>
    simp only [resume, castVote]
    split
    · exact sound.finish held
    · rename_i pubkey _
      refine PeerSound.next ?_ held trivial
      exact (sound.mono (List.subset_cons_self _ signed)).upsert ⟨_, List.mem_cons_self⟩
  | voteStored b => exact sound.finish held
  | ballotFound b inVoting =>
    simp only [resume]
    split
    · exact sound.next held task
    · exact sound.finish held
  | ballotAdmitted b => exact (sound.upsert task).finish held
  | resultFound sender r failover =>
    simp only [resume, openResult]
    split
    · exact sound.finish held
    · split
      · exact sound.finish held
      · split
        · exact sound.next held task
        · exact sound.finish held
  | catchUpFound r =>
    simp only [resume, openCatchUp]
    split
    · exact sound.finish held
    · exact sound.next held task
  | ingesting trigger rest =>
    cases rest with
    | nil => exact sound.next held sound.table_read
    | cons v rest =>
      have ingested := sound.ingest (v := v) (fun w same => task w (same ▸ List.mem_cons_self))
      exact ingested.next (by rw [ingest_tasks]; exact held)
        (fun w member => task w (List.mem_cons_of_mem _ member))
  | retallied trigger rows heard => exact sound.applied held task trigger
  | caughtUp => exact (sound.request none).finish held
  | expired =>
    simp only [resume]
    split
    · exact sound.next held sound.table_read
    · exact sound.finish held
  | tallied rows heard =>
    simp only [resume, tallyProposal]
    split
    · exact (sound.update task).finish (by rw [update_tasks]; exact held)
    · exact sound.finish held
  | missing found =>
    simp only [resume, requestMissingResults]
    generalize (if found = true then p.resultRequest else none) = pruned
    split
    · exact (sound.request _).finish held
    · exact (sound.request pruned).finish held
  | asked sender status =>
    simp only [resume]
    split
    · exact sound.next held trivial
    · exact sound.finish held
  | answering sender status rows =>
    simp only [resume, answerRequest]
    split
    · exact sound.finish held
    · exact sound.finish held

theorem message_genuine {r : ResultData}
    (genuine : ∀ v ∈ (Message.result r).evidence, Genuine cfg signed v) :
    AllGenuine cfg signed (evidenceOf r.votes) := by
  intro v member
  refine genuine v ?_
  unfold evidenceOf at member
  split at member
  · exact absurd member List.not_mem_nil
  · rename_i vs listed
    split at member
    · exact absurd member List.not_mem_nil
    · rw [Message.evidence, listed, Option.getD_some, List.mem_filterMap]
      exact ⟨some v, member, rfl⟩

theorem message_sound (sound : PeerSound cfg keys signed p) {m : Envelope}
    (genuine : ∀ v ∈ m.data.evidence, Genuine cfg signed v) :
    PeerSound cfg keys signed (handleMessage cfg env p m) := by
  unfold handleMessage
  split
  · rename_i v data
    rw [data] at genuine
    unfold handleVote
    split
    · exact sound
    · split
      · rename_i authentic
        unfold voteIsAuthentic at authentic
        rw [Bool.and_eq_true] at authentic
        exact sound.await (genuine_made (genuine v List.mem_cons_self) authentic.2)
      · exact sound
  · rename_i r data
    rw [data] at genuine
    have evidence := message_genuine genuine
    split
    · unfold handleCatchUpResult
      split
      · exact sound.await evidence
      · exact sound
    · unfold handleResult
      split
      · exact sound.await evidence
      · exact sound
  · unfold handleResultRequest
    split
    · exact sound.await trivial
    · exact sound

theorem fail_sound (sound : PeerSound cfg keys signed p) (held : slotAt p.tasks n = some t) :
    PeerSound cfg keys signed (failStatement p n t) := by
  have task := sound.tasks n t held
  unfold failStatement
  split
  · rename_i trigger v rest
    exact sound.next held (fun w member => task w (List.mem_cons_of_mem _ member))
  · exact sound.next held trivial
  · exact sound.next held trivial
  · exact sound.finish held

/-- Every act of a hub keeps it sound. -/
theorem act_sound (sound : PeerSound cfg keys signed p) (a : Act)
    (genuine : ∀ m, a = .deliver m → ∀ v ∈ m.data.evidence, Genuine cfg signed v) :
    PeerSound cfg keys ((act cfg i env p a).signed ++ signed) (act cfg i env p a).peer := by
  cases a with
  | vote choice =>
    simp only [act, startVote]
    split
    · exact sound
    · split
      · exact sound.await trivial
      · exact sound
  | deliver m => exact message_sound sound (genuine m rfl)
  | checkExpired =>
    simp only [act]
    split
    · exact sound.await trivial
    · exact sound
  | requestMissing => exact sound.await trivial
  | resume m =>
    simp only [act]
    split
    · exact sound
    · rename_i u held
      exact resume_sound sound held
  | fail m =>
    simp only [act]
    split
    · exact sound
    · rename_i u held
      exact fail_sound sound held
  | restart =>
    refine ⟨sound.locked, sound.reading, ?_, sound.status, sound.decided⟩
    intro m u found
    exact absurd found (by simp [act, Peer.silent])

end Steps

section Decisions
variable {ι : Type} {cfg : Config ι} {p : Peer} {n : ℕ} {i : ι} {env : Env}

theorem update_decided_on (s : Status) (heard : List Ballot) :
    (updateGovernanceProposal p s heard).decidedOn =
      if p.row.status = .voting then some heard else p.decidedOn := by
  unfold updateGovernanceProposal
  split <;> rfl

theorem ingest_decided_on (v : Option Evidence) : (ingestVote cfg p v).decidedOn = p.decidedOn := by
  unfold ingestVote
  split
  · split <;> rfl
  · rfl

theorem resume_decided_on {t : Task} (held : slotAt p.tasks n = some t) :
    (resume cfg i env p n t).peer.decidedOn = (deciding cfg p n).or p.decidedOn := by
  unfold deciding
  rw [held]
  cases t with
  | retallied trigger rows heard =>
    simp only [resume, Peer.silent, applyRetally]
    cases trigger with
    | result =>
      simp only [Peer.finish, update_decided_on]
      split <;> simp_all
    | catchUp r =>
      simp only
      split
      · simp only [Peer.next, update_decided_on]
        split <;> simp_all
      · simp [Peer.finish]
  | tallied rows heard =>
    simp only [resume, tallyProposal]
    split
    · rename_i open'
      simp [Peer.finish, update_decided_on, open']
    · simp [Peer.silent, Peer.finish]
  | ingesting trigger rest =>
    cases rest with
    | nil => simp [resume, Peer.silent, Peer.next]
    | cons v rest => simp [resume, Peer.silent, Peer.next, ingest_decided_on]
  | voteSeq choice prior =>
    simp only [resume, castVote]
    split <;> simp [Peer.silent, Peer.next, Peer.finish, upsertVote]
  | missing found =>
    simp only [resume, requestMissingResults]
    generalize (if found = true then p.resultRequest else none) = pruned
    split <;> simp [Peer.silent, Peer.finish]
  | answering sender status rows =>
    simp only [resume, answerRequest]
    split <;> simp [Peer.silent, Peer.finish]
  | resultFound sender r failover =>
    simp only [resume, openResult]
    repeat' split
    all_goals simp [Peer.silent, Peer.next, Peer.finish]
  | catchUpFound r =>
    simp only [resume, openCatchUp]
    split <;> simp [Peer.silent, Peer.next, Peer.finish]
  | voteFound choice inVoting =>
    simp only [resume]
    split <;> simp [Peer.silent, Peer.next, Peer.finish]
  | ballotFound b inVoting =>
    simp only [resume]
    split <;> simp [Peer.silent, Peer.next, Peer.finish]
  | expired =>
    simp only [resume]
    split <;> simp [Peer.silent, Peer.next, Peer.finish]
  | asked sender status =>
    simp only [resume]
    split <;> simp [Peer.silent, Peer.next, Peer.finish]
  | voteStored b => simp [resume, Peer.finish]
  | ballotAdmitted b => simp [resume, Peer.silent, Peer.finish, upsertVote]
  | caughtUp => simp [resume, Peer.silent, Peer.finish]

end Decisions
end XChainHub.Governance
