import XChainHub.Anchor.CheckpointEngine.Signing

/-!
One payload a sequence: a hub signs one string at each chain, network and sequence as long as
its memory forgets no sequence that the latch has not passed.
-/
namespace XChainHub.Anchor.CheckpointEngine
open NumberText ScriptValue BoundedCommitments DelimitedText GuardedRuns

section Keys
variable {chain chain' network network' : String} {seq seq' : Number}

theorem seq_key_cells (chain network : String) (seq : Number) :
    barCells (seqKey chain network seq) = barCells chain ++ barCells network ++ [seq.chars] := by
  rw [seqKey, bar_cells_append, bar_cells_append, bar_cells_number]

/- The sequence that a key ends with. -/
def keySeq (key : String) : Number := readNumber ((barCells key).getLastD [])

theorem key_seq (chain network : String) (seq : Number) : keySeq (seqKey chain network seq) = seq := by
  rw [keySeq, seq_key_cells, List.getLastD_concat, read_chars]

/- The latch is beyond a sequence. -/
def passed (latch : Option ℚ) (seq : Number) : Bool :=
  latch.any fun last => seq.rational.any fun block => block < last

theorem passed_rise {latch : ℚ} {s : Engine} (done : passed s.lastCheckpointBtcBlock seq = true) :
    passed (advanceLatch s latch).lastCheckpointBtcBlock seq = true := by
  unfold advanceLatch
  split
  · rename_i above
    cases held : s.lastCheckpointBtcBlock with
    | none =>
      rw [held] at done
      exact absurd done (by simp [passed])
    | some last =>
      rw [held] at done above
      simp only [passed, Option.any_some, Option.any_eq_true] at done ⊢
      obtain ⟨block, here, below⟩ := done
      simp only [Option.all_some, decide_eq_true_eq] at above below
      exact ⟨block, here, decide_eq_true (below.trans above)⟩
  · exact done

end Keys

section Frames
variable {cfg : Settings} {s : Engine} {snap : ℚ} {p : Proposal}

/- What a signature depends on. -/
def Engine.signing (s : Engine) : OrderedMap String String × Option ℚ × List Signed :=
  (s.signedAtSeq, s.lastCheckpointBtcBlock, s.signatures)

theorem supersede_signing (s : Engine) (btcBlock : ℚ) : (supersedeOwnAttempt s btcBlock).signing = s.signing := by
  unfold supersedeOwnAttempt
  split
  · rfl
  · split <;> rfl

theorem yield_signing (cfg : Settings) (s : Engine) (snap : ℚ) :
    (yieldToLowerRound cfg s snap).signing = s.signing := by
  unfold yieldToLowerRound
  split
  · rfl
  · split <;> rfl

theorem cadence_signing (cfg : Settings) (s : Engine) (snap : ℚ) :
    (cadenceConflict cfg s snap).1.signing = s.signing := by
  unfold cadenceConflict
  split <;> rfl

theorem cadence_free (free : (cadenceConflict cfg s snap).2 = false) : finalizedConflict cfg s snap = false := by
  unfold cadenceConflict at free
  split at free
  · exact absurd free (by simp)
  · rename_i none
    simpa using none

def Proposal.key (p : Proposal) : String := seqKey p.cp.chain p.cp.network p.cp.checkpointSeq

def Proposal.signed (p : Proposal) : Signed := ⟨p.cp.chain, p.cp.network, p.cp.checkpointSeq, p.canonical⟩

/-- A proposal leaves the signatures, or passes the latch, is granted its sequence and is signed. -/
theorem sign_cases (cfg : Settings) (s : Engine) (p : Proposal) :
    (signRound cfg s p).1.signing = s.signing ∨
      finalizedConflict cfg s p.snapshot = false ∧
      (claim CHECKPOINT_SIGNED_SEQ_MEMORY s.signedAtSeq p.key p.canonical).2 = true ∧
      (signRound cfg s p).1.signing =
        ((claim CHECKPOINT_SIGNED_SEQ_MEMORY s.signedAtSeq p.key p.canonical).1,
          s.lastCheckpointBtcBlock, s.signatures ++ [p.signed]) := by
  have frame := cadence_signing cfg s p.snapshot
  unfold signRound
  split
  · rename_i s' conflict
    rw [conflict] at frame
    exact Or.inl frame
  · rename_i s' free
    have open' := cadence_free (by rw [free])
    rw [free] at frame
    obtain ⟨memory, rest⟩ := Prod.mk.inj frame
    obtain ⟨latch, log⟩ := Prod.mk.inj rest
    simp only [claimSeqSignature]
    rw [memory]
    change _ ∨ finalizedConflict cfg s p.snapshot = false ∧ _
    cases won : (claim CHECKPOINT_SIGNED_SEQ_MEMORY s.signedAtSeq
        (seqKey p.cp.chain p.cp.network p.cp.checkpointSeq) p.canonical) with
    | mk held granted =>
      cases granted with
      | false =>
        refine Or.inl ?_
        have same := claim_refused (by rw [won])
        rw [won] at same
        simp only [Engine.signing]
        rw [show held = s.signedAtSeq from same, latch, log]
      | true =>
        refine Or.inr ⟨open', by rw [Proposal.key, won], ?_⟩
        rw [Proposal.key, won]
        simp only [Engine.signing, noteRoundSignature, Proposal.signed]
        rw [latch, log]

end Frames

section Runs
variable {cfg : Settings} {s : Engine} {now : ℕ} {latch : Option ℚ} {es : List Event}

def Signed.entry (a : Signed) : String × String := (seqKey a.chain a.network a.seq, a.canonical)

/-- The memory binds what the hub has signed, up to sequences below the latch. -/
def Committed (s : Engine) : Prop :=
  Bound (fun key => passed s.lastCheckpointBtcBlock (keySeq key) = true) s.signedAtSeq
    (s.signatures.map Signed.entry)

theorem committed_frame {s' : Engine} (committed : Committed s) (same : s'.signing = s.signing) :
    Committed s' := by
  obtain ⟨memory, rest⟩ := Prod.mk.inj same
  obtain ⟨latch, log⟩ := Prod.mk.inj rest
  rw [Committed, memory, latch, log]
  exact committed

/- The proposal that a step brings to its last checks. -/
def claims (cfg : Settings) (s : Engine) : Event → Option (Engine × Proposal)
  | .round call => (proposeRound cfg s call).map fun p => (s, p)
  | .ownBlock i bh =>
    match s.cosigns[i]? with
    | some (p, true) =>
      if confirms cfg p bh then
        some (yieldToLowerRound cfg { s with cosigns := s.cosigns.eraseIdx i } p.snapshot, p)
      else none
    | _ => none
  | _ => none

/-- Where a step signs at a sequence the memory does not hold, what the full memory forgets for
    it is below the latch. -/
def Admits (cfg : Settings) (s : Engine) (e : Event) : Prop :=
  ∀ c ∈ claims cfg s e, (cadenceConflict cfg c.1 c.2.snapshot).2 = false →
    s.signedAtSeq.get c.2.key = none →
      ∀ old ∈ forgotten CHECKPOINT_SIGNED_SEQ_MEMORY s.signedAtSeq,
        passed s.lastCheckpointBtcBlock (keySeq old.1) = true

instance (cfg : Settings) (s : Engine) (e : Event) : Decidable (Admits cfg s e) :=
  inferInstanceAs (Decidable (∀ _ ∈ _, _))

theorem free_not_passed {p : Proposal} (free : finalizedConflict cfg s p.snapshot = false) :
    ¬ passed s.lastCheckpointBtcBlock (keySeq p.key) = true := by
  intro done
  rw [Proposal.key, key_seq, p.seq, deriveCheckpointSeq] at done
  simp only [passed, p.block, Option.any_some, Option.any_eq_true, decide_eq_true_eq] at done
  obtain ⟨last, held, below⟩ := done
  have reach : p.snapshot < last + cfg.intervalBlocks :=
    below.trans_le (le_add_of_nonneg_right (Nat.cast_nonneg _))
  simp [finalizedConflict, held, below.ne, reach] at free

theorem committed_sign {p : Proposal} (committed : Committed s)
    (forgets : (cadenceConflict cfg s p.snapshot).2 = false → s.signedAtSeq.get p.key = none →
      ∀ old ∈ forgotten CHECKPOINT_SIGNED_SEQ_MEMORY s.signedAtSeq,
        passed s.lastCheckpointBtcBlock (keySeq old.1) = true) :
    Committed (signRound cfg s p).1 := by
  by_cases conflict : (cadenceConflict cfg s p.snapshot).2 = true
  · have same : (signRound cfg s p).1.signing = s.signing := by
      have frame := cadence_signing cfg s p.snapshot
      unfold signRound
      split
      · rename_i s' stop
        rw [stop] at frame
        exact frame
      · rename_i s' go
        rw [go] at conflict
        exact absurd conflict (by simp)
    exact committed_frame committed same
  · rcases sign_cases cfg s p with same | ⟨free, granted, now⟩
    · exact committed_frame committed same
    · obtain ⟨memory, rest⟩ := Prod.mk.inj now
      obtain ⟨latch, log⟩ := Prod.mk.inj rest
      rw [Committed, memory, latch, log, List.map_append]
      exact claim_bound committed (by decide) (free_not_passed free)
        (forgets (by simpa using conflict)) granted

theorem committed_latch {latch : ℚ} (committed : Committed s) : Committed (advanceLatch s latch) := by
  have same : (advanceLatch s latch).signedAtSeq = s.signedAtSeq ∧
      (advanceLatch s latch).signatures = s.signatures := by
    unfold advanceLatch
    split <;> exact ⟨rfl, rfl⟩
  rw [Committed, same.1, same.2]
  exact bound_fenced committed fun key => passed_rise

theorem committed_step (s : Engine) (e : Event) (committed : Committed s) (admits : Admits cfg s e) :
    Committed (step cfg s e) := by
  cases e with
  | clock now => exact committed
  | tip btcBlock =>
    refine committed_frame committed ?_
    exact supersede_signing s btcBlock
  | lead btcBlock => exact committed
  | round call =>
    simp only [step, runRound]
    split
    · exact committed
    · rename_i p proposed
      have signed := committed_sign (p := p) committed (admits (s, p) (by simp [claims, proposed]))
      split
      · rename_i s' stop
        rw [stop] at signed
        exact signed
      · rename_i s' go
        rw [go] at signed
        split
        · exact signed
        · exact signed
  | closed id => exact committed
  | signReq req =>
    refine committed_frame committed ?_
    simp only [step, handleSignReq]
    split
    · rfl
    · split
      · exact supersede_signing s _
      · exact supersede_signing s _
  | maxSeq i seated =>
    refine committed_frame committed ?_
    simp only [step, replayGuard]
    split
    · split <;> rfl
    · rfl
  | abandon i => exact committed
  | ownBlock i bh =>
    simp only [step, confirmRead]
    split
    · rename_i p here
      unfold coSignAgainstOwnBlock
      split
      · rename_i own
        have frame := yield_signing cfg { s with cosigns := s.cosigns.eraseIdx i } p.snapshot
        have signed := admits _ (by simp only [claims, here, if_pos own]; rfl)
        obtain ⟨memory, rest⟩ := Prod.mk.inj frame
        obtain ⟨latch, log⟩ := Prod.mk.inj rest
        refine committed_sign (committed_frame committed frame) ?_
        rw [memory, latch]
        exact signed
      · exact committed
    · exact committed
  | finalized snapshotBlock => exact committed_latch committed

theorem committed_run (admitted : Admitted (step cfg) (Admits cfg) (booted now latch) es) :
    Committed (run cfg (booted now latch) es) :=
  run_invariant Committed committed_step (show Committed (booted now latch) from bound_empty) admitted

/-- A hub whose memory only forgets sequences below its latch signs one payload a sequence. -/
theorem one_payload_per_sequence
    (admitted : Admitted (step cfg) (Admits cfg) (booted now latch) es) {a b : Signed}
    (first : a ∈ (run cfg (booted now latch) es).signatures)
    (second : b ∈ (run cfg (booted now latch) es).signatures)
    (chain : a.chain = b.chain) (network : a.network = b.network) (seq : a.seq = b.seq) :
    a.canonical = b.canonical := by
  have bound := committed_run admitted
  refine bound.single (seqKey a.chain a.network a.seq) _ _ (List.mem_map.mpr ⟨a, first, rfl⟩) ?_
  rw [chain, network, seq]
  exact List.mem_map.mpr ⟨b, second, rfl⟩

def fleet : Settings :=
  ⟨decimalBuiltins, registryGates, fun _ _ _ => true, "mainnet", some "aa", 6, 144, 60000⟩

def served (height : ℕ) : BlockHashes :=
  ⟨"mainnet", .ofNat height, "b0", "b1", "b2", "b3", some "b4", some (.ofNat 1), some "b5", some (.ofNat 1)⟩

/- A round led at a block and led again after it timed out. -/
def ledTwice : List Event :=
  [.lead 900001, .round ⟨"BTC", 900001, ["aa", "bb"], none, served 7, none, false, false⟩,
    .closed "BTC|mainnet|7|900001",
    .round ⟨"BTC", 900001, ["aa", "bb"], some (.ofNat 7), served 7, none, false, false⟩]

theorem led_twice_one_payload : (run fleet (booted 0 none) ledTwice).signatures.length = 2 ∧
    ∀ a ∈ (run fleet (booted 0 none) ledTwice).signatures,
      ∀ b ∈ (run fleet (booted 0 none) ledTwice).signatures, a.canonical = b.canonical := by
  have one : ∀ a ∈ (run fleet (booted 0 none) ledTwice).signatures,
      a.chain = "BTC" ∧ a.network = "mainnet" ∧ a.seq = .ofNat 900001 := by decide
  refine ⟨by decide, ?_⟩
  intro a first b second
  obtain ⟨chain, network, seq⟩ := one a first
  obtain ⟨chain', network', seq'⟩ := one b second
  exact one_payload_per_sequence (by decide) first second (chain.trans chain'.symm)
    (network.trans network'.symm) (seq.trans seq'.symm)

end Runs

section Forgotten

def wire (chain : String) (n height : ℕ) : Value :=
  .object [("chain", .text chain), ("network", .text "mainnet"), ("block_index", .number (.ofNat height)),
    ("block_hash", .text "b0"), ("ledger_hash", .text "b1"), ("actions_hash", .text "b2"),
    ("contract_hash", .text "b3"), ("checkpoint_seq", .number (.ofNat n)),
    ("snapshot_block", .number (.ofNat n)), ("state_root", .text "b4"),
    ("state_root_version", .number (.ofNat 1)), ("block_merkle_root", .text "b5"),
    ("block_merkle_version", .number (.ofNat 1))]

def record (chain : String) (n height : ℕ) : Checkpoint :=
  checkpointFromBlockHashes fleet.js chain "mainnet" (served height) (.ofNat n) (.ofNat n) none
    (Value.ofOption .text none)

theorem normalize_wire {chain : String} (allowed : chain ∈ allowedChains) (n height : ℕ) :
    normalizeCheckpoint fleet.js (wire chain n height) = some (record chain n height) := by
  simp only [allowedChains, List.mem_cons, List.not_mem_nil, or_false] at allowed
  have upper : fleet.js.toUpperCase chain = chain := by
    rcases allowed with rfl | rfl | rfl <;> decide
  have filled : chain.isEmpty = false := by
    rcases allowed with rfl | rfl | rfl <;> decide
  have known : chain ∈ allowedChains := by
    rcases allowed with rfl | rfl | rfl <;> decide
  simp [normalizeCheckpoint, wire, Value.field, Value.isFalsy, Value.isNullish, Value.asText, Value.asNumber,
    nullable, lowerText, Value.orElse, upper, filled, known, record, checkpointFromBlockHashes, served]

def payload (chain : String) (n height : ℕ) : String :=
  (canonicalCheckpoint fleet.js fleet.gates (record chain n height)).getD ""

theorem canonical_record (chain : String) (n height : ℕ) :
    canonicalCheckpoint fleet.js fleet.gates (record chain n height) = some (payload chain n height) := by
  have suffix : checkpointSupersedeSuffix fleet.js fleet.gates (record chain n height) = some "" := by
    simp [checkpointSupersedeSuffix, record, checkpointFromBlockHashes, hasSupersedeFields, supersedeSuffix, Value.ofOption, Value.isNullish]
  unfold payload canonicalCheckpoint
  rw [suffix]
  dsimp only
  split <;> rfl

theorem record_rooted (chain : String) (n height : ℕ) : isRootless fleet.gates (record chain n height) = false := by
  have state : fleet.js.toLowerCase "b4" ≠ "" := by decide
  have merkle : fleet.js.toLowerCase "b5" ≠ "" := by decide
  simp [isRootless, record, checkpointFromBlockHashes, served, emptyOrNull, state, merkle]

def proposal (chain : String) (n height : ℕ) : Proposal :=
  ⟨record chain n height, payload chain n height, n, rational_of_nat n, rfl⟩

def request (chain : String) (n height tip : ℕ) : SignReq := ⟨wire chain n height, "bb", "", some tip, ["aa", "bb"]⟩

theorem strict_equals_of_nat (n : ℕ) : strictEquals (.ofNat n) (.ofNat n) = true := by
  have finite := rational_of_nat n
  cases number : Number.ofNat n with
  | nan =>
    rw [number] at finite
    exact absurd finite (by simp [Number.rational])
  | _ => simp [strictEquals]

theorem proposal_of (chain : String) (n height : ℕ) :
    Proposal.of (record chain n height) (payload chain n height) = some (proposal chain n height) := by
  have block : (record chain n height).snapshotBlock.rational = some (n : ℚ) := rational_of_nat n
  have seq : strictEquals (record chain n height).checkpointSeq
    (deriveCheckpointSeq (record chain n height).snapshotBlock) = true := strict_equals_of_nat n
  unfold Proposal.of
  split
  · rename_i none
    rw [block] at none
    exact absurd none (by simp)
  · rename_i snapshot some'
    rw [block, Option.some.injEq] at some'
    subst some'
    rw [dif_pos seq]
    rfl

theorem led (chain : String) {n : ℕ} (odd : n % 2 = 1) (height : ℕ) :
    followsCadenceLeader fleet ["aa", "bb"] "bb" "aa" (record chain n height) = true := by
  have keys : ((["aa", "bb"].map fleet.js.toLowerCase).dedup.insertionSort (· ≤ ·)) = ["aa", "bb"] := by
    decide
  have natural : (record chain n height).snapshotBlock.natural = some n := natural_of_nat n
  simp only [followsCadenceLeader]
  rw [keys, natural]
  simp [odd]

theorem received {chain : String} (allowed : chain ∈ allowedChains) {n tip : ℕ} (odd : n % 2 = 1)
    (low : n ≤ tip + 144) (high : tip ≤ n + 144) (height : ℕ) :
    receiveSignReq fleet (request chain n height tip) = some (proposal chain n height, tip) := by
  have block : (record chain n height).snapshotBlock.rational = some (n : ℚ) := rational_of_nat n
  have near : |(tip : ℚ) - n| ≤ fleet.cosignToleranceBlocks := by
    have low' : (n : ℚ) ≤ tip + 144 := by exact_mod_cast low
    have high' : (tip : ℚ) ≤ n + 144 := by exact_mod_cast high
    rw [show fleet.cosignToleranceBlocks = 144 from rfl, abs_le]
    constructor <;> push_cast <;> linarith
  have sender : fleet.js.toLowerCase "bb" = "bb" := by decide
  have network : networkAccepted fleet.network (record chain n height) = true := by
    simp [networkAccepted, fleet, record, checkpointFromBlockHashes]
  have identity : fleet.identity = some "aa" := rfl
  have verified (canonical sig pubkey : String) : fleet.verify canonical sig pubkey = true := rfl
  simp only [receiveSignReq, request, normalize_wire allowed, sender, identity, Option.bind_eq_bind,
    Option.bind_some, network, block, near, led chain odd, canonical_record, verified, proposal_of]
  rfl

theorem confirmed (chain : String) (n height : ℕ) :
    confirms fleet (proposal chain n height) (served height) = true := by
  have mine : canonicalCheckpoint fleet.js fleet.gates (checkpointFromBlockHashes fleet.js chain "mainnet"
      (served height) (.ofNat n) (.ofNat n) none (Value.ofOption .text none)) =
        some (payload chain n height) := canonical_record chain n height
  simp only [confirms, Bool.and_eq_true, decide_eq_true_eq, Bool.not_eq_true']
  exact ⟨mine, record_rooted chain n height⟩

theorem sweep_spent {cfg : Settings} {s : Engine} {snap : ℚ} {held : List (ℚ × ℕ)}
    (all : ∀ e ∈ held, spent s e = true) : sweep cfg s snap held = ([], none) := by
  induction held with
  | nil => rfl
  | cons e rest ih =>
    rw [List.forall_mem_cons] at all
    rw [sweep, if_pos all.1]
    exact ih all.2

def coSigned (now tip : ℕ) (chain : String) (n height : ℕ) : List Event :=
  [.clock now, .signReq (request chain n height tip), .maxSeq 0 none, .ownBlock 0 (served height)]

def entry (chain : String) (n height : ℕ) : String × String :=
  (seqKey chain "mainnet" (.ofNat n), payload chain n height)

/- Nothing is finalized, led or waiting. -/
def quietAt (now : ℕ) (memory : OrderedMap String String) (rounds : OrderedMap ℚ ℕ) (log : List Signed) :
    Engine := ⟨now, memory, 0, none, none, rounds, .empty, [], log⟩

section Quiet
variable {now later tip n height : ℕ} {chain : String} {memory : OrderedMap String String}
  {rounds : OrderedMap ℚ ℕ} {log : List Signed}

theorem quiet_requested (allowed : chain ∈ allowedChains) (odd : n % 2 = 1) (low : n ≤ tip + 144)
    (high : tip ≤ n + 144) :
    handleSignReq fleet (quietAt now memory rounds log) (request chain n height tip) =
      { quietAt now memory rounds log with cosigns := [(proposal chain n height, false)] } := by
  unfold handleSignReq
  rw [received allowed odd low high]
  rfl

theorem quiet_confirmed : confirmRead fleet
    { quietAt now memory rounds log with cosigns := [(proposal chain n height, true)] } 0 (served height) =
      (signRound fleet (quietAt now memory rounds log) (proposal chain n height)).1 := by
  change coSignAgainstOwnBlock fleet (quietAt now memory rounds log) (proposal chain n height)
    (served height) = _
  rw [coSignAgainstOwnBlock, if_pos (confirmed chain n height)]
  rfl

theorem quiet_signed (expired : ∀ e ∈ rounds.entries, e.2 ≤ now)
    (new : memory.get (entry chain n height).1 = none) :
    (signRound fleet (quietAt now memory rounds log) (proposal chain n height)).1 =
      quietAt now (remember CHECKPOINT_SIGNED_SEQ_MEMORY memory (entry chain n height).1 (entry chain n height).2)
        (OrderedMap.empty.set (n : ℚ) (now + fleet.roundTimeoutMs))
        (log ++ [(proposal chain n height).signed]) := by
  have swept := @sweep_spent fleet (quietAt now memory rounds log) n rounds.entries (by
      intro e member
      simp only [spent, quietAt, Option.any_none, Bool.or_false]
      exact decide_eq_true (expired e member))
  have free : cadenceConflict fleet (quietAt now memory rounds log) n =
      (quietAt now memory .empty log, false) := by
    simp only [cadenceConflict, finalizedConflict, quietAt, Option.any_none, Bool.false_eq_true, if_false,
      signedRoundConflict]
    simp only [quietAt] at swept
    simp only [swept]
    rfl
  have granted : claim CHECKPOINT_SIGNED_SEQ_MEMORY memory (proposal chain n height).key (payload chain n height) =
      (remember CHECKPOINT_SIGNED_SEQ_MEMORY memory (entry chain n height).1 (entry chain n height).2, true) := by
    rw [claim, show memory.get (proposal chain n height).key = none from new]
    rfl
  rw [signRound, show (proposal chain n height).snapshot = (n : ℚ) from rfl, free]
  simp only [claimSeqSignature]
  rw [show claim CHECKPOINT_SIGNED_SEQ_MEMORY (quietAt now memory .empty log).signedAtSeq
    (seqKey (proposal chain n height).cp.chain (proposal chain n height).cp.network
      (proposal chain n height).cp.checkpointSeq) (proposal chain n height).canonical = _ from granted]
  rfl

/-- A quiet hub signs what the slot holder proposes at a sequence its memory does not hold. -/
theorem quiet_cosigned (allowed : chain ∈ allowedChains) (odd : n % 2 = 1) (low : n ≤ tip + 144)
    (high : tip ≤ n + 144) (expired : ∀ e ∈ rounds.entries, e.2 ≤ later)
    (new : memory.get (entry chain n height).1 = none) :
    run fleet (quietAt now memory rounds log) (coSigned later tip chain n height) =
      quietAt later (remember CHECKPOINT_SIGNED_SEQ_MEMORY memory (entry chain n height).1 (entry chain n height).2)
        (OrderedMap.empty.set (n : ℚ) (later + fleet.roundTimeoutMs))
        (log ++ [(proposal chain n height).signed]) := by
  change confirmRead fleet (replayGuard (handleSignReq fleet (quietAt later memory rounds log)
    (request chain n height tip)) 0 none) 0 (served height) = _
  rw [quiet_requested allowed odd low high]
  exact quiet_confirmed.trans (quiet_signed expired new)

end Quiet

section Filling

/- A proposal's chain and snapshot block, and the co-signer's tip. -/
abbrev Item := String × ℕ × ℕ

def Item.proposable (a : Item) : Prop :=
  a.1 ∈ allowedChains ∧ a.2.1 % 2 = 1 ∧ a.2.1 ≤ a.2.2 + 144 ∧ a.2.2 ≤ a.2.1 + 144

/- One proposal each round timeout. -/
def proposeAll (height : ℕ) : ℕ → List Item → List Event
  | _, [] => []
  | now, a :: rest => coSigned (now + fleet.roundTimeoutMs) a.2.2 a.1 a.2.1 height ++
      proposeAll height (now + fleet.roundTimeoutMs) rest

def Item.entry (height : ℕ) (a : Item) : String × String := CheckpointEngine.entry a.1 a.2.1 height

theorem propose_all {items : List Item} {history : List (String × String)} {now height : ℕ}
    {memory : OrderedMap String String} {rounds : OrderedMap ℚ ℕ} {log : List Signed}
    (good : ∀ a ∈ items, a.proposable)
    (apart : ((history ++ items.map (Item.entry height)).map Prod.fst).Nodup)
    (newest : memory.entries = history.drop (history.length - CHECKPOINT_SIGNED_SEQ_MEMORY))
    (expiring : ∀ e ∈ rounds.entries, e.2 ≤ now + fleet.roundTimeoutMs) :
    ∃ now' memory' rounds', run fleet (quietAt now memory rounds log) (proposeAll height now items) =
        quietAt now' memory' rounds' (log ++ items.map fun a => (proposal a.1 a.2.1 height).signed) ∧
      memory'.entries = (history ++ items.map (Item.entry height)).drop
        ((history ++ items.map (Item.entry height)).length - CHECKPOINT_SIGNED_SEQ_MEMORY) ∧
      ∀ e ∈ rounds'.entries, e.2 ≤ now' + fleet.roundTimeoutMs := by
  induction items generalizing history now memory rounds log with
  | nil =>
    refine ⟨now, memory, rounds, ?_, ?_, expiring⟩
    · rw [List.map_nil, List.append_nil]
      rfl
    · rw [List.map_nil, List.append_nil]
      exact newest
  | cons a rest ih =>
    rw [List.forall_mem_cons] at good
    obtain ⟨⟨allowed, odd, low, high⟩, later⟩ := good
    have fresh : (a.entry height).1 ∉ history.map Prod.fst := by
      rw [List.map_append, List.nodup_append] at apart
      intro member
      exact apart.2.2 _ member _ (by simp) rfl
    have new : memory.get (a.entry height).1 = none := by
      rw [Option.eq_none_iff_forall_ne_some]
      intro w held
      have member := OrderedMap.mem_of_get held
      rw [newest] at member
      exact fresh (List.mem_map.mpr ⟨_, List.mem_of_mem_drop member, rfl⟩)
    have first := @quiet_cosigned now (now + fleet.roundTimeoutMs) _ _ height _ _ _ log
      allowed odd low high expiring new
    have joined : history ++ (a :: rest).map (Item.entry height) =
        (history ++ [a.entry height]) ++ rest.map (Item.entry height) := by simp
    rw [joined] at apart
    obtain ⟨now', memory', rounds', ran, entries, still⟩ := @ih (history ++ [a.entry height])
      (now + fleet.roundTimeoutMs) _
      (OrderedMap.empty.set (a.2.1 : ℚ) (now + fleet.roundTimeoutMs + fleet.roundTimeoutMs))
      (log ++ [(proposal a.1 a.2.1 height).signed]) later apart
      (remember_history (k := (a.entry height).1) (v := (a.entry height).2) newest fresh) (by
        intro e member
        rw [set_new_entries rfl] at member
        rw [List.mem_singleton.mp member])
    refine ⟨now', memory', rounds', ?_, ?_, still⟩
    · rw [proposeAll, run, run_append]
      rw [run] at first ran
      rw [first]
      refine ran.trans ?_
      rw [List.append_assoc]
      rfl
    · rw [joined]
      exact entries

end Filling

def slotChain (i : ℕ) : String :=
  match i % 3 with
  | 0 => "BTC"
  | 1 => "LTC"
  | _ => "DOGE"

/- Snapshot blocks from 899941 to 900281, the first of them 900001. -/
def slotBlock (i : ℕ) : ℕ :=
  if i / 3 = 0 then 900001 else if i / 3 ≤ 30 then 899939 + 2 * (i / 3) else 899941 + 2 * (i / 3)

def slotTip (i : ℕ) : ℕ := if i / 3 ≤ 30 then 900001 else 900141

def slots : List Item := (List.range 513).map fun i => (slotChain i, slotBlock i, slotTip i)

theorem slots_proposable : ∀ a ∈ slots, a.proposable := by
  intro a member
  obtain ⟨i, inside, rfl⟩ := List.mem_map.mp member
  have small : i / 3 ≤ 170 := by
    have := List.mem_range.mp inside
    omega
  refine ⟨?_, ?_, ?_, ?_⟩
  · simp only [slotChain, allowedChains]
    split <;> decide
  · simp only [slotBlock]
    split_ifs <;> omega
  · simp only [slotBlock, slotTip]
    split_ifs <;> omega
  · simp only [slotBlock, slotTip]
    split_ifs <;> omega

theorem slot_entry_inj {i j : ℕ}
    (same : (entry (slotChain i) (slotBlock i) 7).1 = (entry (slotChain j) (slotBlock j) 7).1) : i = j := by
  have seq := of_nat_inj ((key_seq _ _ _).symm.trans ((congrArg keySeq same).trans (key_seq _ _ _)))
  have chain : slotChain i = slotChain j := by
    simp only [entry, seqKey, seq, String.append_left_inj] at same
    exact same
  have chains : i % 3 = j % 3 := by
    have first : i % 3 = 0 ∨ i % 3 = 1 ∨ i % 3 = 2 := by omega
    have second : j % 3 = 0 ∨ j % 3 = 1 ∨ j % 3 = 2 := by omega
    unfold slotChain at chain
    rcases first with here | here | here <;> rcases second with there | there | there <;>
      rw [here, there] at chain ⊢ <;> exact absurd chain (by decide)
  have blocks : i / 3 = j / 3 := by
    simp only [slotBlock] at seq
    split_ifs at seq <;> omega
  omega

theorem slots_apart : (([] ++ slots.map (Item.entry 7)).map Prod.fst).Nodup := by
  rw [List.nil_append, slots, List.map_map, List.map_map]
  exact List.nodup_range.map_on fun i _ j _ same => slot_entry_inj same

/- The first sequence is proposed again, with the next block of the chain. -/
theorem forgotten_sequence_signed_twice : ¬ ∀ (cfg : Settings) (now : ℕ) (latch : Option ℚ) (es : List Event)
    (a b : Signed), cfg.network ≠ "" → a ∈ (run cfg (booted now latch) es).signatures →
      b ∈ (run cfg (booted now latch) es).signatures → a.chain = b.chain → a.network = b.network →
        a.seq = b.seq → a.canonical = b.canonical := by
  intro always
  obtain ⟨now, memory, rounds, ran, newest, expiring⟩ :=
    @propose_all _ [] 0 _ .empty .empty [] slots_proposable slots_apart rfl nofun
  have first : slots = ("BTC", 900001, 900001) :: slots.tail := by decide +kernel
  have new : memory.get (entry "BTC" 900001 8).1 = none := by
    have gone : memory.entries = slots.tail.map (Item.entry 7) := by
      rw [newest, List.nil_append, List.length_map, show slots.length = 513 by simp [slots],
        show 513 - CHECKPOINT_SIGNED_SEQ_MEMORY = 1 from rfl, List.drop_one, List.map_tail]
    have apart := slots_apart
    rw [List.nil_append, first, List.map_cons, List.map_cons, List.nodup_cons] at apart
    rw [Option.eq_none_iff_forall_ne_some]
    intro w held
    have member := OrderedMap.mem_of_get held
    rw [gone] at member
    exact apart.1 (List.mem_map.mpr ⟨_, member, rfl⟩)
  have again := @quiet_cosigned now (now + fleet.roundTimeoutMs) 900141 900001 8 "BTC" _ _
    ([] ++ slots.map fun a => (proposal a.1 a.2.1 7).signed)
    (by decide) (by decide) (by decide) (by decide) expiring new
  have whole : (run fleet (booted 0 none) (proposeAll 7 0 slots ++
      coSigned (now + fleet.roundTimeoutMs) 900141 "BTC" 900001 8)).signatures =
        [] ++ (slots.map fun a => (proposal a.1 a.2.1 7).signed) ++ [(proposal "BTC" 900001 8).signed] := by
    rw [run, run_append]
    rw [run] at ran again
    rw [show booted 0 none = quietAt 0 .empty .empty [] from rfl, ran, again]
    dsimp only [quietAt]
  have two : payload "BTC" 900001 7 = payload "BTC" 900001 8 :=
    always fleet 0 none _ (proposal "BTC" 900001 7).signed (proposal "BTC" 900001 8).signed (by decide) (by
      rw [whole, List.nil_append, first]
      exact List.mem_append_left _ List.mem_cons_self) (by
      rw [whole]
      exact List.mem_append_right _ List.mem_cons_self) rfl rfl rfl
  exact absurd two (by decide)

end Forgotten
end XChainHub.Anchor.CheckpointEngine
