import XChainHub.Governance.Agreement

/-!
What the vote table keeps of the votes that reach a hub, as GOV_VOTE and as the evidence of
results, in any order and any number of times: of each voter the admitted vote of the highest
seq, in one row, which the tally counts once.
-/
namespace XChainHub.Governance
open ScriptValue LatestWins GuardedRuns
open StakeWeightedQuorum (asciiLower)
open SlotHeap (slotAt slot_nil slot_set_cases slot_push_cases)

section Deliveries
variable {ι : Type} (cfg : Config ι)

/- A vote on its way to the table: a GOV_VOTE with the set, the clock and the row its handler
   read, a run of evidence with the row it was ingested for, or the hub's own. Where other
   statements come between the entries of one result, it is several runs. -/
inductive Delivery where
  | vote (validatorSet : List Member) (env : Env) (row : Row) (v : Evidence)
  | evidence (row : Row) (votes : List (Option Evidence))
  | own (b : Ballot)

def voteAdmitted (validatorSet : List Member) (env : Env) (row : Row) (v : Evidence) : Bool :=
  !(v.vote = "" || v.voterPubkey = "" || normalizeVoteSeq v.seq = 0) &&
    voteIsAuthentic { cfg with validatorSet := validatorSet } v &&
    voteCountsOnThisProposal env row (row.status = .voting) v.voterPubkey

def evidenceAdmitted (row : Row) (v : Option Evidence) : List Ballot :=
  match v, parseSnapshot row.validatorSnapshot with
  | some v, some e => if ingestible cfg e v then [v.ballot] else []
  | _, _ => []

/- What a delivery hands to upsertVote. -/
def Delivery.handed : Delivery → List Ballot
  | .vote validatorSet env row v => if voteAdmitted cfg validatorSet env row v then [v.ballot] else []
  | .evidence row votes => votes.flatMap (evidenceAdmitted cfg row)
  | .own b => [b]

/- The votes that the table takes. -/
def admitted (ds : List Delivery) : List Ballot :=
  (ds.flatMap (Delivery.handed cfg)).filter (fun b => (cfg.column.value b.vote).isSome)

def receive (votes : VoteTable) (d : Delivery) : VoteTable :=
  (d.handed cfg).foldl (setGovernanceVote cfg.column) votes

def received (ds : List Delivery) : VoteTable := ds.foldl (receive cfg) OrderedMap.empty

end Deliveries

section Kept
variable {ι : Type} {cfg : Config ι} {column : VoteColumn} {votes : VoteTable} {heard : List Ballot}

/- The rows are the latest votes, with their signatures. -/
structure Kept (column : VoteColumn) (votes : VoteTable) (heard : List Ballot) : Prop where
  table : TableOf column votes heard
  signed : ∀ k row b, votes.get k = some row → latestVote heard k = some b →
    row.signature = b.signature

theorem empty_kept : Kept column OrderedMap.empty [] :=
  ⟨empty_table_of, fun k row b held => absurd held (by simp [OrderedMap.get_empty])⟩

theorem Kept.upsert (kept : Kept column votes heard) {b : Ballot} {choice : Choice}
    (stored : column.value b.vote = some choice) :
    Kept column (setGovernanceVote column votes b) (heard ++ [b]) := by
  refine ⟨kept.table.upsert stored, ?_⟩
  intro k row c held late
  rw [setGovernanceVote, stored] at held
  simp only at held
  by_cases same : k = b.key
  · subst same
    rw [OrderedMap.get_set_same, Option.some.injEq] at held
    rw [latestVote, latest_of_concat_same] at late
    have before := kept.table b.key
    cases old : votes.get b.key with
    | none =>
      rw [old] at before held
      cases was : latestVote heard b.key with
      | some x =>
        rw [was] at before
        exact absurd before (by simp [RowOf])
      | none =>
        rw [latestVote] at was
        rw [was, newer, Option.some.injEq] at late
        rw [← held, ← late]
        rfl
    | some r =>
      rw [old] at before held
      cases was : latestVote heard b.key with
      | none =>
        rw [was] at before
        exact absurd before (by simp [RowOf])
      | some x =>
        rw [was] at before
        have signature := kept.signed b.key r x old was
        rw [latestVote] at was
        rw [was] at late
        simp only [newer, ← before.2.2] at late
        simp only [upsertRow] at held
        split at held
        · rename_i higher
          rw [if_pos higher, Option.some.injEq] at late
          rw [← held, ← late]
        · rename_i lower
          rw [if_neg lower, Option.some.injEq] at late
          rw [← held, ← late]
          exact signature
  · rw [OrderedMap.get_set_other same] at held
    rw [latestVote, latest_of_concat_other Ballot.seq Ballot.key heard (Ne.symm same)] at late
    exact kept.signed k row c held late

/-- A run of statements keeps the latest votes among those the column takes. -/
theorem Kept.upserts (kept : Kept column votes heard) (bs : List Ballot) :
    Kept column (bs.foldl (setGovernanceVote column) votes)
      (heard ++ bs.filter (fun b => (column.value b.vote).isSome)) := by
  induction bs generalizing votes heard with
  | nil =>
    rw [List.filter_nil, List.append_nil]
    exact kept
  | cons b bs ih =>
    rw [List.foldl_cons]
    cases stored : column.value b.vote with
    | none =>
      rw [List.filter_cons_of_neg (by simp [stored]), setGovernanceVote, stored]
      exact ih kept
    | some choice =>
      rw [List.filter_cons_of_pos (by simp [stored]), List.append_cons]
      exact ih (kept.upsert stored)

theorem received_concat (ds : List Delivery) (d : Delivery) :
    received cfg (ds ++ [d]) = receive cfg (received cfg ds) d := by
  simp [received]

theorem received_kept (ds : List Delivery) : Kept cfg.column (received cfg ds) (admitted cfg ds) := by
  induction ds using List.reverseRecOn with
  | nil => exact empty_kept
  | append_singleton front d ih =>
    have next := ih.upserts (d.handed cfg)
    rw [received_concat, admitted, List.flatMap_append, List.filter_append, List.flatMap_singleton]
    exact next

end Kept

section Counting
variable {votes : VoteTable} {heard : List Ballot} {column : VoteColumn}

/- The keys a tally filters by, none where it takes every row. -/
def electors (validatorSet : List Member) (electorate : Option Electorate) : Option (List String) :=
  match electorate with
  | some e => some e.keys
  | none =>
    if validatorSet.length = 0 then none else some (validatorSet.map (fun m => asciiLower m.pubkey))

theorem rows_distinct (table : TableOf column votes heard) :
    ((VoteTable.rows votes).map (fun v => asciiLower v.voterPubkey)).Nodup := by
  have keyed : (VoteTable.rows votes).map (fun v => asciiLower v.voterPubkey) =
      votes.entries.map Prod.fst := by
    rw [VoteTable.rows, List.map_map]
    apply List.map_congr_left
    rintro ⟨k, row⟩ member
    exact row_key table member
  rw [keyed]
  exact votes.nodup

theorem counted_sublist (validatorSet : List Member) (rows : List VoteRow)
    (electorate : Option Electorate) : (countedVotes validatorSet rows electorate).Sublist rows := by
  unfold countedVotes
  split
  · exact List.filter_sublist
  · split
    · exact List.Sublist.refl rows
    · exact List.filter_sublist

theorem counted_electors {validatorSet : List Member} {rows : List VoteRow}
    {electorate : Option Electorate} {keys : List String}
    (filtered : electors validatorSet electorate = some keys) :
    ∀ v ∈ countedVotes validatorSet rows electorate, asciiLower v.voterPubkey ∈ keys := by
  intro v member
  cases electorate with
  | some e =>
    obtain rfl := Option.some.inj filtered
    exact of_decide_eq_true (List.mem_filter.mp member).2
  | none =>
    simp only [electors, countedVotes] at filtered member
    split at filtered
    · exact absurd filtered (by simp)
    · rename_i some_set
      rw [if_neg some_set] at member
      obtain rfl := Option.some.inj filtered
      exact of_decide_eq_true (List.mem_filter.mp member).2

theorem choices_le (rows : List VoteRow) :
    (rows.filter (fun v => v.vote = .approve)).length +
      (rows.filter (fun v => v.vote = .reject)).length ≤ rows.length := by
  induction rows with
  | nil => exact Nat.le_refl 0
  | cons row rows ih =>
    cases choice : row.vote with
    | approve =>
      rw [List.filter_cons_of_pos (by simp [choice]), List.filter_cons_of_neg (by simp [choice]),
        List.length_cons, List.length_cons]
      omega
    | reject =>
      rw [List.filter_cons_of_neg (by simp [choice]), List.filter_cons_of_pos (by simp [choice]),
        List.length_cons, List.length_cons]
      omega

theorem tally_bounded (table : TableOf column votes heard) (validatorSet : List Member)
    (electorate : Option Electorate) {keys : List String}
    (filtered : electors validatorSet electorate = some keys) :
    (computeTally validatorSet (VoteTable.rows votes) electorate).approvals +
      (computeTally validatorSet (VoteTable.rows votes) electorate).rejections ≤ keys.length := by
  have counted := counted_sublist validatorSet (VoteTable.rows votes) electorate
  have distinct := (rows_distinct table).sublist (counted.map (fun v => asciiLower v.voterPubkey))
  have inside : (countedVotes validatorSet (VoteTable.rows votes) electorate).map
      (fun v => asciiLower v.voterPubkey) ⊆ keys := by
    intro k member
    obtain ⟨v, held, rfl⟩ := List.mem_map.mp member
    exact counted_electors filtered v held
  have few := (distinct.subperm inside).length_le
  rw [List.length_map] at few
  exact (choices_le _).trans few

end Counting

/-- Of each voter, however its key is spelled, one row is kept, with the vote, the signature and
    the seq of its admitted vote of the highest seq. A tally counts an elector once, and its
    approvals and rejections together are no more than the electors. -/
theorem last_vote_kept {ι : Type} (cfg : Config ι) (ds : List Delivery) :
    (∀ k row, (received cfg ds).get k = some row → asciiLower row.voterPubkey = k ∧
      ∃ b ∈ admitted cfg ds, b.key = k ∧ cfg.column.value b.vote = some row.vote ∧
        row.signature = b.signature ∧ row.voteSeq = b.seq ∧
        ∀ c ∈ admitted cfg ds, c.key = k → c.seq ≤ b.seq) ∧
    (∀ b ∈ admitted cfg ds, ∃ row, (received cfg ds).get b.key = some row) ∧
    ∀ validatorSet electorate,
      ((countedVotes validatorSet (VoteTable.rows (received cfg ds)) electorate).map
        (fun v => asciiLower v.voterPubkey)).Nodup ∧
      ∀ keys ∈ electors validatorSet electorate,
        (∀ v ∈ countedVotes validatorSet (VoteTable.rows (received cfg ds)) electorate,
          asciiLower v.voterPubkey ∈ keys) ∧
        (computeTally validatorSet (VoteTable.rows (received cfg ds)) electorate).approvals +
          (computeTally validatorSet (VoteTable.rows (received cfg ds)) electorate).rejections ≤
            keys.length := by
  have kept : Kept cfg.column (received cfg ds) (admitted cfg ds) := received_kept ds
  refine ⟨?_, ?_, ?_⟩
  · intro k row held
    have now := kept.table k
    rw [held] at now
    cases late : latestVote (admitted cfg ds) k with
    | none =>
      rw [late] at now
      exact absurd now (by simp [RowOf])
    | some b =>
      rw [late] at now
      obtain ⟨spelled, choice, seq⟩ := now
      obtain ⟨member, keyed⟩ := latest_of_mem late
      exact ⟨spelled, b, member, keyed, choice, kept.signed k row b held late, seq, latest_of_le late⟩
  · intro b member
    have now := kept.table b.key
    cases held : (received cfg ds).get b.key with
    | some row => exact ⟨row, rfl⟩
    | none =>
      rw [held] at now
      cases late : latestVote (admitted cfg ds) b.key with
      | some c =>
        rw [late] at now
        exact absurd now (by simp [RowOf])
      | none => exact absurd rfl (latest_of_none late b member)
  · intro validatorSet electorate
    refine ⟨?_, ?_⟩
    · exact (rows_distinct kept.table).sublist ((counted_sublist _ _ _).map _)
    · intro keys filtered
      rw [Option.mem_def] at filtered
      exact ⟨counted_electors filtered, tally_bounded kept.table _ _ filtered⟩

section Samples

/- One voter, whose signature is the payload it is made over. -/
def soleConfig : Config Unit where
  proposalId := "gov:P:1"
  validatorSet := [⟨"aa", none⟩]
  leaderRound := 0
  tallyInterval := 60000
  column := sampleConfig.column
  verify := fun payload signature _ => signature = payload
  addr := fun _ => "h"
  pubkey := fun _ => some "aa"
  sign := fun _ payload => payload

def soleRow : Row := ⟨1000, .array [.object [("pubkey", .text "aa")]], .voting⟩

def signedVote (voter choice : String) (seq : ℕ) : Evidence :=
  ⟨voter, choice, voteSigningPayload "gov:P:1" choice voter (.number (.ofNat seq)),
    .number (.ofNat seq)⟩

def heardAt (now : ℤ) (v : Evidence) : Delivery :=
  .vote soleConfig.validatorSet ⟨now, now, false, some ["h"], true, true⟩ soleRow v

/- The second vote spells the key in capitals. -/
def respelled : List Delivery :=
  [heardAt 10 (signedVote "aa" "approve" 10), .evidence soleRow [some (signedVote "AA" "reject" 20)]]

theorem respelled_voter_counted_once :
    (computeTally soleConfig.validatorSet (VoteTable.rows (received soleConfig respelled)) none).approvals +
      (computeTally soleConfig.validatorSet (VoteTable.rows (received soleConfig respelled))
        none).rejections ≤ 1 ∧
    ∃ row ∈ (received soleConfig respelled).get "aa", row.vote = .reject ∧ row.voteSeq = 20 :=
  ⟨(((last_vote_kept soleConfig respelled).2.2 soleConfig.validatorSet none).2 ["aa"]
    (by decide +kernel)).2, by decide +kernel⟩

/-- A vote that its voter signed and that is heard after the close is not taken: the row keeps
    the earlier one. -/
theorem late_vote_not_kept :
    (∀ v ∈ [signedVote "aa" "approve" 10, signedVote "aa" "reject" 20],
      voteIsAuthentic soleConfig v = true) ∧
    ∃ row ∈ (received soleConfig [heardAt 10 (signedVote "aa" "approve" 10),
        heardAt 2000 (signedVote "aa" "reject" 20)]).get "aa", row.vote = .approve ∧ row.voteSeq = 10 := by
  decide +kernel

end Samples

section Runs
variable {ι : Type} {cfg : Config ι} {p : Peer} {n : ℕ} {t u : Task} {i : ι} {env : Env}

/- A ballot that waits passed the checks in front of its await. -/
def Checked (cfg : Config ι) : Task → Prop
  | .ballotFound b _ => ∃ v : Evidence, b = v.ballot ∧ voteIsAuthentic cfg v = true ∧
      ¬ (v.vote = "" ∨ v.voterPubkey = "" ∨ normalizeVoteSeq v.seq = 0)
  | .ballotAdmitted b => ∃ env row, ∃ v : Evidence, b = v.ballot ∧
      voteAdmitted cfg cfg.validatorSet env row v = true
  | _ => True

/- The vote table of a hub is that of a sequence of deliveries. -/
structure Accounted (cfg : Config ι) (p : Peer) : Prop where
  table : ∃ ds, p.votes = received cfg ds ∧ p.heard = admitted cfg ds
  tasks : ∀ n t, slotAt p.tasks n = some t → Checked cfg t

theorem Accounted.await (account : Accounted cfg p) (task : Checked cfg t) :
    Accounted cfg (p.await t) := by
  refine ⟨account.table, ?_⟩
  intro m u found
  rcases slot_push_cases found with old | new
  · exact account.tasks m u old
  · exact new ▸ task

theorem Accounted.next (account : Accounted cfg p) (held : slotAt p.tasks n = some u)
    (task : Checked cfg t) : Accounted cfg (p.next n t) := by
  refine ⟨account.table, ?_⟩
  intro m v found
  rcases slot_set_cases held found with ⟨-, now⟩ | ⟨-, old⟩
  · rw [Option.some.injEq] at now
    exact now ▸ task
  · exact account.tasks m v old

theorem Accounted.finish (account : Accounted cfg p) (held : slotAt p.tasks n = some u) :
    Accounted cfg (p.finish n) := by
  refine ⟨account.table, ?_⟩
  intro m v found
  rcases slot_set_cases held found with ⟨-, now⟩ | ⟨-, old⟩
  · exact absurd now (by simp)
  · exact account.tasks m v old

theorem Accounted.request (account : Accounted cfg p) (r : Option ℤ) :
    Accounted cfg { p with resultRequest := r } := ⟨account.table, account.tasks⟩

theorem Accounted.update (account : Accounted cfg p) (s : Status) (heard : List Ballot) :
    Accounted cfg (updateGovernanceProposal p s heard) := by
  unfold updateGovernanceProposal
  split
  · exact ⟨account.table, account.tasks⟩
  · exact account

/-- One more statement is one more delivery. -/
theorem Accounted.upsert (account : Accounted cfg p) {b : Ballot} {d : Delivery}
    (handed : d.handed cfg = [b]) : Accounted cfg (upsertVote cfg p b) := by
  refine ⟨?_, account.tasks⟩
  obtain ⟨ds, votes, heard⟩ := account.table
  refine ⟨ds ++ [d], ?_, ?_⟩
  · rw [received_concat, receive, handed, ← votes]
    rfl
  · rw [admitted, List.flatMap_append, List.filter_append, List.flatMap_singleton, handed]
    change (if (cfg.column.value b.vote).isSome = true then p.heard ++ [b] else p.heard) =
      admitted cfg ds ++ [b].filter (fun b => (cfg.column.value b.vote).isSome)
    rw [heard]
    split
    · rename_i stored
      rw [List.filter_cons_of_pos (by simpa using stored), List.filter_nil]
    · rename_i refused
      rw [List.filter_cons_of_neg (by simpa using refused), List.filter_nil, List.append_nil]

theorem Accounted.ingest (account : Accounted cfg p) (v : Option Evidence) :
    Accounted cfg (ingestVote cfg p v) := by
  unfold ingestVote
  split
  · rename_i w e locked
    split
    · rename_i fits
      apply account.upsert (d := .evidence p.row [some w])
      simp [Delivery.handed, evidenceAdmitted, locked, fits]
    · exact account
  · exact account

theorem Accounted.applied (account : Accounted cfg p) (held : slotAt p.tasks n = some t)
    (trigger : Trigger) (rows : List VoteRow) (heard : List Ballot) :
    Accounted cfg (applyRetally cfg p n trigger rows heard) := by
  have updated := fun s => account.update s heard
  unfold applyRetally
  cases trigger with
  | result => exact (updated _).finish (by rw [update_tasks]; exact held)
  | catchUp r =>
    simp only
    split
    · exact (updated _).next (by rw [update_tasks]; exact held) trivial
    · exact account.finish held

theorem resume_accounted (account : Accounted cfg p) (held : slotAt p.tasks n = some t) :
    Accounted cfg (resume cfg i env p n t).peer := by
  have task := account.tasks n t held
  cases t with
  | voteFound choice inVoting =>
    simp only [resume]
    split
    · exact account.next held trivial
    · exact account.finish held
  | voteSeq choice prior =>
    simp only [resume, castVote]
    split
    · exact account.finish held
    · exact (account.upsert (d := .own _) rfl).next held trivial
  | voteStored b => exact account.finish held
  | ballotFound b inVoting =>
    simp only [resume]
    split
    · rename_i counts
      obtain ⟨v, rfl, authentic, whole⟩ := task
      -- the row as the statement read it, when the vote was delivered
      refine account.next held ⟨env, { p.row with status := if inVoting then .voting else .failed },
        v, rfl, ?_⟩
      have open' : ((if inVoting then Status.voting else .failed) = .voting) ↔ inVoting = true := by
        cases inVoting <;> simp
      have read : decide ((if inVoting then Status.voting else .failed) = .voting) = inVoting := by
        rw [Bool.eq_iff_iff, decide_eq_true_iff]
        exact open'
      have fits : (!(decide (v.vote = "") || decide (v.voterPubkey = "") ||
          decide (normalizeVoteSeq v.seq = 0))) = true := by simpa [not_or, and_assoc] using whole
      simp only [voteAdmitted, read]
      rw [fits, authentic, Bool.true_and, Bool.true_and]
      exact counts
    · exact account.finish held
  | ballotAdmitted b =>
    obtain ⟨env', row, v, rfl, passed⟩ := task
    refine Accounted.finish ?_ held
    apply account.upsert (d := .vote cfg.validatorSet env' row v)
    simp [Delivery.handed, passed]
  | resultFound sender r failover =>
    simp only [resume, openResult]
    split
    · exact account.finish held
    · split
      · exact account.finish held
      · split
        · exact account.next held trivial
        · exact account.finish held
  | catchUpFound r =>
    simp only [resume, openCatchUp]
    split
    · exact account.finish held
    · exact account.next held trivial
  | ingesting trigger rest =>
    cases rest with
    | nil => exact account.next held trivial
    | cons v rest => exact (account.ingest v).next (by rw [ingest_tasks]; exact held) trivial
  | retallied trigger rows heard => exact account.applied held trigger rows heard
  | caughtUp => exact (account.request none).finish held
  | expired =>
    simp only [resume]
    split
    · exact account.next held trivial
    · exact account.finish held
  | tallied rows heard =>
    simp only [resume, tallyProposal]
    split
    · exact (account.update _ _).finish (by rw [update_tasks]; exact held)
    · exact account.finish held
  | missing found =>
    simp only [resume, requestMissingResults]
    generalize (if found = true then p.resultRequest else none) = pruned
    split
    · exact (account.request _).finish held
    · exact (account.request pruned).finish held
  | asked sender status =>
    simp only [resume]
    split
    · exact account.next held trivial
    · exact account.finish held
  | answering sender status rows =>
    simp only [resume, answerRequest]
    split
    · exact account.finish held
    · exact account.finish held

theorem message_accounted (account : Accounted cfg p) (m : Envelope) :
    Accounted cfg (handleMessage cfg env p m) := by
  unfold handleMessage
  split
  · unfold handleVote
    split
    · exact account
    · rename_i whole
      split
      · rename_i authentic
        exact account.await ⟨_, rfl, authentic, whole⟩
      · exact account
  · split
    · unfold handleCatchUpResult
      split
      · exact account.await trivial
      · exact account
    · unfold handleResult
      split
      · exact account.await trivial
      · exact account
  · unfold handleResultRequest
    split
    · exact account.await trivial
    · exact account

theorem act_accounted (account : Accounted cfg p) (a : Act) : Accounted cfg (act cfg i env p a).peer := by
  cases a with
  | vote choice =>
    simp only [act, startVote]
    split
    · exact account
    · split
      · exact account.await trivial
      · exact account
  | deliver m => exact message_accounted account m
  | checkExpired =>
    simp only [act]
    split
    · exact account.await trivial
    · exact account
  | requestMissing => exact account.await trivial
  | resume n =>
    simp only [act]
    split
    · exact account
    · rename_i t held
      exact resume_accounted account held
  | fail n =>
    simp only [act]
    split
    · exact account
    · rename_i t held
      change Accounted cfg (failStatement p n t)
      unfold failStatement
      split
      · exact account.next held trivial
      · exact account.next held trivial
      · exact account.next held trivial
      · exact account.finish held
  | restart =>
    refine ⟨account.table, ?_⟩
    intro m u found
    exact absurd found (by simp [act, Peer.silent])

/-- Whatever the hubs of a federation and everyone else do, and however the handlers wait on one
    another, the vote table of a hub is that of a sequence of deliveries. -/
theorem run_accounted [DecidableEq ι] {w : World ι}
    (fresh : ∀ i, (w.peers i).votes = OrderedMap.empty ∧ (w.peers i).heard = [] ∧ (w.peers i).tasks = [])
    (es : List (Event ι)) : ∀ i, Accounted cfg ((run (step cfg) w es).peers i) := by
  refine run_preserves (fun w : World ι => ∀ i, Accounted cfg (w.peers i)) ?_ ?_ es
  · intro w e all j
    cases e with
    | sign key payload => exact all j
    | act i env a =>
      change Accounted cfg (Function.update w.peers i (act cfg i env (w.peers i) a).peer j)
      by_cases same : j = i
      · subst same
        rw [Function.update_self]
        exact act_accounted (all j) a
      · rw [Function.update_of_ne same]
        exact all j
  · intro i
    obtain ⟨votes, heard, tasks⟩ := fresh i
    refine ⟨⟨[], votes, heard⟩, ?_⟩
    intro n t found
    rw [tasks, slot_nil] at found
    exact absurd found (by simp)

/- What a row says of its voter's vote. -/
def VoteRow.shown (row : VoteRow) : Choice × ℕ × String := (row.vote, row.voteSeq, row.signature)

theorem Kept.shown {column : VoteColumn} {votes : VoteTable} {heard : List Ballot}
    (kept : Kept column votes heard) (k : String) :
    (votes.get k).map VoteRow.shown =
      (latestVote heard k).bind
        (fun b => (column.value b.vote).map (fun choice => (choice, b.seq, b.signature))) := by
  have now := kept.table k
  cases held : votes.get k with
  | none =>
    cases late : latestVote heard k with
    | none => rfl
    | some b =>
      rw [held, late] at now
      exact absurd now (by simp [RowOf])
  | some row =>
    cases late : latestVote heard k with
    | none =>
      rw [held, late] at now
      exact absurd now (by simp [RowOf])
    | some b =>
      rw [held, late] at now
      obtain ⟨-, choice, seq⟩ := now
      have signature := kept.signed k row b held late
      simp [VoteRow.shown, choice, seq, signature]

/-- Hubs that heard the same votes, in any order and any number of times, hold the same ones,
    where no voter signed two votes of one seq. -/
theorem vote_tables_converge [DecidableEq ι] {w : World ι}
    (fresh : ∀ i, (w.peers i).votes = OrderedMap.empty ∧ (w.peers i).heard = [] ∧ (w.peers i).tasks = [])
    (es : List (Event ι)) {i j : ι}
    (same : ∀ b, b ∈ ((run (step cfg) w es).peers i).heard ↔ b ∈ ((run (step cfg) w es).peers j).heard)
    (single : ∀ b ∈ ((run (step cfg) w es).peers i).heard,
      ∀ c ∈ ((run (step cfg) w es).peers i).heard, b.key = c.key → b.seq = c.seq → b = c) (k : String) :
    (((run (step cfg) w es).peers i).votes.get k).map VoteRow.shown =
      (((run (step cfg) w es).peers j).votes.get k).map VoteRow.shown := by
  have kept : ∀ i, Kept cfg.column ((run (step cfg) w es).peers i).votes
      ((run (step cfg) w es).peers i).heard := by
    intro i
    obtain ⟨ds, votes, heard⟩ := (run_accounted fresh es i).table
    rw [votes, heard]
    exact received_kept ds
  rw [(kept i).shown, (kept j).shown, latestVote, latest_of_congr same, latestVote]
  intro b first c second keyed keyed' seq
  exact single b first c second (keyed.trans keyed'.symm) seq

def pairConfig : Config Bool where
  proposalId := "gov:P:1"
  validatorSet := [⟨"aa", none⟩, ⟨"bb", none⟩]
  leaderRound := 0
  tallyInterval := 60000
  column := soleConfig.column
  verify := soleConfig.verify
  addr := fun _ => "h"
  pubkey := fun first => some (if first then "aa" else "bb")
  sign := fun _ payload => payload

def pairWorld : World Bool where
  peers := fun _ => ⟨⟨1000, .array (["aa", "bb"].map (fun k => .object [("pubkey", .text k)])), .voting⟩,
    OrderedMap.empty, none, [], [], none⟩
  signed := []
  sent := []

def hearing (hub : Bool) (n : ℕ) (v : Evidence) : List (Event Bool) :=
  let env : Env := ⟨10, 10, false, some ["h"], true, true⟩
  [.act hub env (.deliver ⟨"h", .vote v⟩), .act hub env (.resume n), .act hub env (.resume n)]

/- Two votes are heard in opposite orders, and one of them twice. -/
def crossedVotes : List (Event Bool) :=
  hearing true 0 (signedVote "aa" "approve" 10) ++ hearing true 1 (signedVote "bb" "reject" 10) ++
    hearing false 0 (signedVote "bb" "reject" 10) ++ hearing false 1 (signedVote "aa" "approve" 10) ++
    hearing false 2 (signedVote "bb" "reject" 10)

def crossedWorld : { w : World Bool // w = run (step pairConfig) pairWorld crossedVotes ∧
    (w.peers false).heard = (w.peers true).heard.reverse ++ (w.peers true).heard.tail ∧
    (w.peers true).heard.length = 2 ∧
    ∀ b ∈ (w.peers true).heard, ∀ c ∈ (w.peers true).heard, b.key = c.key → b.seq = c.seq → b = c } :=
  ⟨_, rfl, by decide +kernel⟩

theorem crossed_votes_converge :
    (((run (step pairConfig) pairWorld crossedVotes).peers true).votes.get "bb").map VoteRow.shown =
      (((run (step pairConfig) pairWorld crossedVotes).peers false).votes.get "bb").map
        VoteRow.shown := by
  obtain ⟨w, rfl, heard, -, single⟩ := crossedWorld
  refine vote_tables_converge (fun _ => ⟨rfl, rfl, rfl⟩) crossedVotes ?_ single "bb"
  intro b
  rw [heard, List.mem_append, List.mem_reverse]
  exact ⟨Or.inl, fun either => either.elim id List.mem_of_mem_tail⟩

end Runs

end XChainHub.Governance
