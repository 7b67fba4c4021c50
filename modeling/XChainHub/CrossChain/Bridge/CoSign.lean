import XChainHub.Consensus.StakeWeightedQuorum
import XChainHub.CrossChain.Bridge.Proposal

/-!
When a proposed bridge row is co-signed: validateProposedMatch and validateTransfer of
cross_chain/bridge/validate.js against the row that another hub proposes.
-/
namespace XChainHub.CrossChain.Bridge
open CanonicalInt
open StakeWeightedQuorum (asciiLower)

def snapshotBlockTolerance : ℕ := 144

def relayMinFutureS : ℕ := 60

section Follower
variable (cfg : Config) (view : View) (hub : Hub) (row : Row)

def allCanonicalInts : Bool :=
  isCanonicalInt row.snapshotBlock && isCanonicalInt row.srcActionIndex &&
    isCanonicalInt row.decimals && isCanonicalInt row.effectiveTime

def numberOf (v : Scalar) : ℚ := v.toNumber.getD 0

/- parseInt of a number. -/
def whole (q : ℚ) : ℤ := q.num.tdiv q.den

/- transferGuardsHold, on the allowed chains of the row. -/
def transferGuardsHold (srcChain destChain : Coin) : Bool :=
  let key := legKey row.network srcChain (numberOf row.srcActionIndex)
  allCanonicalInts row && srcChain ≠ destChain && row.network = cfg.network &&
    (row.tick = "XCHAIN" ||
      gateActive cfg.token cfg.network .btc (whole (numberOf row.snapshotBlock))) &&
    ((hub.guards.persisted.find? (fun r => r.1 = key)).all (fun r =>
      asciiLower r.2 = asciiLower row.transferId)) &&
    (key ∉ hub.guards.inflightSourceLegs ||
      hub.guards.inflightTransferLeg.get (asciiLower row.transferId) = some key)

/- The stamps that a follower expects of a leg it reads at its own indexer. -/
def stampExpected (srcChain : Coin) (block : ℤ) : Bool :=
  (!proofReadyActive cfg row.network srcChain block ||
    (proofReadySnapshot view row.network block).any (fun s => numberOf row.snapshotBlock = (s.val : ℚ))) &&
  (!anchorProofReadyActive cfg row.network srcChain row.tick block ||
    (anchorProofReadySnapshot view row.network srcChain block).any (fun s =>
      numberOf row.snapshotBlock = (s.val : ℚ)))

def fieldsMatch (leg : PendingLeg) (destChain : Coin) : Bool :=
  leg.srcAddress = row.srcAddress && leg.destChain = some destChain &&
    leg.destAddress = row.destAddress && leg.tick = row.tick &&
    leg.decimals.isSome && leg.decimals = row.decimals.toNumber &&
    normalizeAmount leg.amount = normalizeAmount row.amount && leg.pushGeneration = row.pushGeneration

def derivedIdMatches (srcChain destChain : Coin) : Bool :=
  asciiLower (deriveTransferId cfg.toParams row.network
    ⟨srcChain, (numberOf row.srcActionIndex).num, destChain, row.destAddress⟩) = asciiLower row.transferId

def validateTransfer : Bool :=
  match row.srcChain, row.destChain with
  | some srcChain, some destChain =>
    transferGuardsHold cfg hub row srcChain destChain &&
      (view.page srcChain).network = row.network &&
      match (view.page srcChain).transfers.find? (fun t =>
          t.srcActionIndex.isSome && t.srcActionIndex = row.srcActionIndex.toNumber) with
      | none => false
      | some leg =>
        match leg.blockIndex with
        | none => false
        | some block =>
          deepEnough cfg srcChain (view.page srcChain).latest block leg.minDepth &&
            snapshotCoversLeg srcChain (numberOf row.snapshotBlock) block &&
            stampExpected cfg view row srcChain block &&
            gateActive cfg.bridge cfg.network srcChain block &&
            fieldsMatch row leg destChain && derivedIdMatches cfg row srcChain destChain
  | _, _ => false

/- The row's effective time is at least a minute and at most an hour ahead of the clock. -/
def inWindow : Bool :=
  row.effectiveTime.toNumber.any (fun e =>
    (e - (hub.now.val : ℚ) ≤ 3600) && ((relayMinFutureS : ℚ) ≤ e - (hub.now.val : ℚ)))

def nearTip (stamp : ℚ) : Bool :=
  hub.tip.all (fun mine => |stamp - (mine.val : ℚ)| ≤ (snapshotBlockTolerance : ℚ))

/- validatePolicy answers for a row of the other family. -/
def validateProposedMatch (validatePolicy : Row → Bool) : Bool :=
  let hasTransfer := row.transferId ≠ ""
  let hasPolicy := row.snapshotId ≠ ""
  if decide hasTransfer = decide hasPolicy then false
  else if inWindow hub row = false then false
  else if row.snapshotBlock.toNumber.any (fun stamp => !nearTip hub stamp) then false
  else if row.snapshotBlock.toNumber.all (fun stamp =>
      !gateActive cfg.bridge cfg.network .btc (whole stamp)) then false
  else if hasTransfer then validateTransfer cfg view hub row
  else validatePolicy row

end Follower

section Claim
variable (cfg : Config) (view : View) (follower : Hub) (coin : Coin) (t : PendingLeg)

/- The follower holds no other record and no other open round for the row's leg. -/
def NoOther (row : Row) : Prop :=
  let key := legKey row.network coin (numberOf row.srcActionIndex)
  (∀ r ∈ follower.guards.persisted, r.1 = key → asciiLower r.2 = asciiLower row.transferId) ∧
    (key ∈ follower.guards.inflightSourceLegs →
      follower.guards.inflightTransferLeg.get (asciiLower row.transferId) = some key)

/- The indexer serves the hubs' network, the action index is a safe integer, and a checkpoint
   stamp lies near the follower's tip and above the bridge's own activation on BTC. -/
def CoSignable : Prop :=
  (view.page coin).network = cfg.network ∧ (∀ index ∈ t.srcActionIndex, isSafeInteger index = true) ∧
    ∀ block ∈ t.blockIndex, ∀ held ∈ checkpointStamp cfg view (view.page coin).network coin t.tick block,
      ∀ s ∈ held, nearTip follower s.val = true ∧
        gateActive cfg.bridge cfg.network .btc s.val = true

end Claim

section Proposed
variable {cfg : Config} {view : View} {proposer follower : Hub} {coin : Coin} {t : PendingLeg}
  {row : Row} {admission : Bool}

/-- What a proposal rests on. -/
theorem proposal_spec (proposed : pollLeg cfg view proposer coin admission t = some row) :
    ∃ tip block stamp, proposer.tip = some tip ∧
      gateActive cfg.bridge cfg.network .btc tip.val = true ∧ t.blockIndex = some block ∧
      legAdmitted cfg coin (view.page coin).latest tip t block = true ∧
      stampSnapshotBlock cfg view (view.page coin).network coin tip t.tick block = some stamp ∧
      snapshotCoversLeg coin stamp.val block = true ∧ fieldsUsable t = true ∧
      row = transferRow cfg proposer (view.page coin).network coin stamp t := by
  unfold pollLeg maybeFinalizeTransfer at proposed
  split at proposed
  · exact absurd proposed (by simp)
  · rename_i tip present
    split at proposed
    · rename_i polled
      rw [Bool.and_eq_true] at polled
      split at proposed
      · exact absurd proposed (by simp)
      · rename_i block mined
        split at proposed
        · rename_i admitted
          rw [Bool.and_eq_true] at admitted
          split at proposed
          · exact absurd proposed (by simp)
          · rename_i stamp stamped
            split at proposed
            · rename_i ready
              rw [Bool.and_eq_true, Bool.and_eq_true] at ready
              rw [Option.some.injEq] at proposed
              exact ⟨tip, block, stamp, present, polled.1, mined, admitted.1, stamped, ready.1.1,
                ready.1.2, proposed.symm⟩
            · exact absurd proposed (by simp)
        · exact absurd proposed (by simp)
    · exact absurd proposed (by simp)

/-- The stamp is the tip, or the checkpoint's with the token gate reached there. -/
theorem stamp_cases {network tick : String} {tip stamp : SafeNat} {block : ℤ}
    (stamped : stampSnapshotBlock cfg view network coin tip tick block = some stamp) :
    (checkpointStamp cfg view network coin tick block = none ∧ stamp = tip) ∨
    (checkpointStamp cfg view network coin tick block = some (some stamp) ∧
      (tick = "XCHAIN" ∨ gateActive cfg.token cfg.network .btc stamp.val = true)) := by
  unfold stampSnapshotBlock at stamped
  split at stamped
  · rename_i plain
    exact Or.inl ⟨plain, (Option.some.inj stamped).symm⟩
  · rename_i held found
    rw [Option.filter_eq_some_iff] at stamped
    rw [found, stamped.1]
    exact Or.inr ⟨rfl, by simpa using stamped.2⟩

/-- A follower with the same checkpoints expects the proposer's stamp. -/
theorem stamp_expected {tip stamp : SafeNat} {block : ℤ}
    (stamped : stampSnapshotBlock cfg view row.network coin tip row.tick block = some stamp)
    (spelled : row.snapshotBlock = .number stamp.val) :
    stampExpected cfg view row coin block = true := by
  have value : numberOf row.snapshotBlock = (stamp.val : ℚ) := by rw [spelled]; rfl
  rcases stamp_cases stamped with ⟨plain, -⟩ | ⟨found, -⟩
  · unfold checkpointStamp at plain
    split at plain
    · exact absurd plain (by simp)
    · rename_i noAnchor
      split at plain
      · exact absurd plain (by simp)
      · rename_i noProof
        simp [stampExpected, noAnchor, noProof]
  · unfold checkpointStamp at found
    split at found
    · rename_i anchor
      have away : coin ≠ .btc := by
        unfold anchorProofReadyActive at anchor
        rw [Bool.and_eq_true, Bool.and_eq_true] at anchor
        exact of_decide_eq_true anchor.1.1
      have plain : proofReadyActive cfg row.network coin block = false := by
        simp [proofReadyActive, away]
      rw [Option.some.injEq] at found
      simp [stampExpected, anchor, plain, found, value]
    · rename_i noAnchor
      split at found
      · rename_i proof
        rw [Option.some.injEq] at found
        simp [stampExpected, noAnchor, proof, found, value]
      · exact absurd found (by simp)

theorem find_listed {page : Page} (listed : t ∈ page.transfers) {index : ℚ}
    (named : t.srcActionIndex = some index) :
    page.transfers.find? (fun u => u.srcActionIndex.isSome && u.srcActionIndex = some index) =
      some t := by
  obtain ⟨front, back, split'⟩ := List.append_of_mem listed
  have once := page.once
  rw [split', List.pairwise_append] at once
  rw [split', List.find?_append, List.find?_eq_none.mpr, Option.none_or, List.find?_cons_of_pos]
  · simp [named]
  · intro u before
    have apart := once.2.2 u before t List.mem_cons_self
    rw [named] at apart
    simp [apart]

theorem clock_safe (now : Clock) (c : Coin) :
    isSafeInteger (((now.val + relayMarginFloorS c : ℕ)) : ℚ) = true := by
  have margin : relayMarginFloorS c ≤ 3000 := Nat.min_le_right ..
  have bound := now.property
  simp only [isSafeInteger, Rat.den_natCast, Rat.num_natCast, Int.natAbs_natCast, decide_true,
    Bool.true_and]
  exact decide_eq_true (by omega)

theorem small_safe {d : ℚ} (whole' : isInteger d = true) (low : 0 ≤ d) (high : d ≤ 18) :
    isSafeInteger d = true := by
  unfold isInteger at whole'
  have den : d.den = 1 := of_decide_eq_true whole'
  have value : d = d.num := (Rat.den_eq_one_iff d).mp den |>.symm
  have bound : d.num.natAbs ≤ 18 := by
    rw [value] at low high
    have low' : 0 ≤ d.num := by exact_mod_cast low
    have high' : d.num ≤ 18 := by exact_mod_cast high
    omega
  simp only [isSafeInteger, den, decide_true, Bool.true_and, decide_eq_true_eq]
  exact Nat.le_trans bound (by decide)

theorem whole_nat (n : ℕ) : whole (n : ℚ) = n := by
  simp [whole]

end Proposed

section Main
variable {cfg : Config} {view : View} {proposer follower : Hub} {coin : Coin} {t : PendingLeg}
  {row : Row} {admission : Bool}

/- The parts of an admitted leg that a follower reads again. -/
structure LegParts (cfg : Config) (view : View) (coin : Coin) (t : PendingLeg) (tip : SafeNat)
    (block : ℤ) : Prop where
  dest : ∃ d, t.destChain = some d ∧ d ≠ coin
  token : t.tick = "XCHAIN" ∨ gateActive cfg.token cfg.network .btc tip.val = true
  bridge : gateActive cfg.bridge cfg.network coin block = true
  index : ∃ q, t.srcActionIndex = some q
  deep : deepEnough cfg coin (view.page coin).latest block t.minDepth = true

theorem leg_admitted_parts {tip : SafeNat} {block : ℤ}
    (admitted : legAdmitted cfg coin (view.page coin).latest tip t block = true) :
    LegParts cfg view coin t tip block := by
  unfold legAdmitted at admitted
  simp only [Bool.and_eq_true, Bool.or_eq_true, decide_eq_true_eq] at admitted
  obtain ⟨⟨⟨⟨⟨⟨-, dest⟩, -⟩, token⟩, bridge⟩, index⟩, deep⟩ := admitted
  obtain ⟨d, chain, apart⟩ := (Option.any_eq_true _ _).mp dest
  obtain ⟨q, named, -⟩ := (Option.any_eq_true _ _).mp index
  exact ⟨⟨d, chain, of_decide_eq_true apart⟩, token, bridge, ⟨q, named⟩, deep⟩

theorem fields_usable_decimals (usable : fieldsUsable t = true) :
    ∃ d, t.decimals = some d ∧ isSafeInteger d = true := by
  unfold fieldsUsable at usable
  simp only [Bool.and_eq_true] at usable
  obtain ⟨d, named, range⟩ := (Option.any_eq_true _ _).mp usable.1.1.1
  simp only [Bool.and_eq_true, decide_eq_true_eq] at range
  exact ⟨d, named, small_safe range.1.1 range.1.2 range.2⟩

/-- The proposer's row passes the follower's own transfer check, up to its network and the
    spelling of its action index. -/
theorem validate_transfer_iff {tip stamp : SafeNat} {block : ℤ}
    (listed : t ∈ (view.page coin).transfers) (mined : t.blockIndex = some block)
    (parts : LegParts cfg view coin t tip block)
    (stamped : stampSnapshotBlock cfg view (view.page coin).network coin tip t.tick block = some stamp)
    (covers : snapshotCoversLeg coin stamp.val block = true) (usable : fieldsUsable t = true)
    (built : row = transferRow cfg proposer (view.page coin).network coin stamp t)
    (free : NoOther follower coin row) :
    validateTransfer cfg view follower row = true ↔
      (view.page coin).network = cfg.network ∧
        ∀ index ∈ t.srcActionIndex, isSafeInteger index = true := by
  obtain ⟨d, chain, apart⟩ := parts.dest
  obtain ⟨q, named⟩ := parts.index
  obtain ⟨dec, decimals, decimalsSafe⟩ := fields_usable_decimals usable
  have index : row.srcActionIndex = .number q := by rw [built, transferRow, named]; rfl
  have spelled : row.snapshotBlock = .number stamp.val := by rw [built, transferRow]
  have value : numberOf row.snapshotBlock = (stamp.val : ℚ) := by rw [spelled]; rfl
  have ints : allCanonicalInts row = isSafeInteger q := by
    have stampSafe := safe_nat_canonical stamp
    have timeSafe := clock_safe proposer.now d
    unfold allCanonicalInts
    rw [index, spelled, stampSafe, built, transferRow, decimals, chain]
    simp only [isCanonicalInt, numberOr, Option.elim_some, Option.getD_some, decimalsSafe, timeSafe,
      Bool.true_and, Bool.and_true]
  have token : (row.tick = "XCHAIN" ||
      gateActive cfg.token cfg.network .btc (whole (numberOf row.snapshotBlock))) = true := by
    rw [value, whole_nat, built, transferRow, Bool.or_eq_true, decide_eq_true_eq]
    rcases stamp_cases stamped with ⟨-, same⟩ | ⟨-, token⟩
    · rw [same]
      exact parts.token
    · exact token
  have record : ((follower.guards.persisted.find? (fun r =>
      r.1 = legKey row.network coin (numberOf row.srcActionIndex))).all
        (fun r => asciiLower r.2 = asciiLower row.transferId)) = true := by
    cases found : follower.guards.persisted.find?
        (fun r => r.1 = legKey row.network coin (numberOf row.srcActionIndex)) with
    | none => rfl
    | some r =>
      rw [Option.all_some]
      exact decide_eq_true (free.1 r (List.mem_of_find?_eq_some found)
        (by simpa using List.find?_some found))
  have open' : (legKey row.network coin (numberOf row.srcActionIndex) ∉
        follower.guards.inflightSourceLegs ||
      follower.guards.inflightTransferLeg.get (asciiLower row.transferId) =
        some (legKey row.network coin (numberOf row.srcActionIndex))) = true := by
    rw [Bool.or_eq_true, decide_eq_true_eq, decide_eq_true_eq]
    by_cases inside : legKey row.network coin (numberOf row.srcActionIndex) ∈
        follower.guards.inflightSourceLegs
    · exact Or.inr (free.2 inside)
    · exact Or.inl inside
  have guards : transferGuardsHold cfg follower row coin d =
      (isSafeInteger q && decide (row.network = cfg.network)) := by
    unfold transferGuardsHold
    simp only
    rw [ints, token, record, open']
    simp [Ne.symm apart]
  have fields : fieldsMatch row t d = true := by
    unfold fieldsMatch
    rw [built, transferRow, decimals, chain]
    simp [numberOr, Scalar.toNumber]
  have identity : derivedIdMatches cfg row coin d = true := by
    unfold derivedIdMatches
    rw [show numberOf row.srcActionIndex = q by rw [index]; rfl, built, transferRow]
    simp [proposedId, named, chain]
  have expected : stampExpected cfg view row coin block = true :=
    stamp_expected (by rw [built]; exact stamped) spelled
  have source : row.srcChain = some coin := by rw [built, transferRow]
  have dest : row.destChain = some d := by rw [built, transferRow, chain]
  have network : row.network = (view.page coin).network := by rw [built, transferRow]
  unfold validateTransfer
  rw [source, dest]
  simp only
  rw [show row.srcActionIndex.toNumber = some q by rw [index]; rfl, find_listed listed named]
  simp only
  rw [mined]
  simp only
  rw [guards, parts.deep, value, covers, expected, parts.bridge, fields, identity, network, named]
  simp [and_comm]

/-- A row proposed for a pending leg is co-signed by another hub with the same view, exactly
    when the leg's stamp is within the follower's reach. -/
theorem proposed_leg_cosigned_iff (named : ∀ text, cfg.sha256 text ≠ "")
    (validatePolicy : Row → Bool) (listed : t ∈ (view.page coin).transfers)
    (proposed : pollLeg cfg view proposer coin admission t = some row)
    (near : ∀ a ∈ proposer.tip, nearTip follower a.val = true)
    (window : inWindow follower row = true) (free : NoOther follower coin row) :
    validateProposedMatch cfg view follower row validatePolicy = true ↔
      CoSignable cfg view follower coin t := by
  obtain ⟨tip, block, stamp, present, polled, mined, admitted, stamped, covers, usable, built⟩ :=
    proposal_spec proposed
  have transfer := validate_transfer_iff listed mined (leg_admitted_parts admitted) stamped covers
    usable built free
  have hasTransfer : row.transferId ≠ "" := by rw [built]; exact named _
  have noPolicy : row.snapshotId = "" := by rw [built, transferRow]
  have value : row.snapshotBlock.toNumber = some (stamp.val : ℚ) := by rw [built, transferRow]; rfl
  have verdict : validateProposedMatch cfg view follower row validatePolicy =
      (nearTip follower stamp.val && gateActive cfg.bridge cfg.network .btc stamp.val &&
        validateTransfer cfg view follower row) := by
    unfold validateProposedMatch
    simp only [noPolicy, window, value, Option.any_some, Option.all_some, whole_nat]
    cases nearTip follower (stamp.val : ℚ) <;>
      cases gateActive cfg.bridge cfg.network .btc (stamp.val : ℤ) <;> simp [hasTransfer]
  rw [verdict, Bool.and_eq_true, Bool.and_eq_true, transfer]
  unfold CoSignable
  rcases stamp_cases stamped with ⟨plain, same⟩ | ⟨found, -⟩
  · -- stamped with the proposer's tip, which the hypotheses bound
    rw [same]
    have reach : nearTip follower tip.val = true := near tip present
    constructor
    · rintro ⟨-, network, index⟩
      refine ⟨network, index, ?_⟩
      intro b mined' held checkpoint
      rw [mined, Option.mem_some_iff] at mined'
      rw [← mined', plain] at checkpoint
      exact absurd checkpoint (by simp)
    · rintro ⟨network, index, -⟩
      exact ⟨⟨reach, polled⟩, network, index⟩
  · constructor
    · rintro ⟨reach, network, index⟩
      refine ⟨network, index, ?_⟩
      intro b mined' held checkpoint s own
      rw [mined, Option.mem_some_iff] at mined'
      rw [← mined', found, Option.mem_some_iff] at checkpoint
      rw [← checkpoint, Option.mem_some_iff] at own
      rw [← own]
      exact reach
    · rintro ⟨network, index, stamps⟩
      exact ⟨stamps block mined (some stamp) found stamp rfl, network, index⟩

end Main

section Sample

def sampleConfig : Config where
  network := "regtest"
  sha256 := fun text => String.ofList ('h' :: text)
  confirmations := fun _ => some 6
  bridge := fun _ _ => some 0
  token := fun _ _ => some 0
  proofReady := fun _ _ => some 0
  anchorProofReady := fun _ _ => some 0

/- A lock of BTC block 1000 that asks for a depth of its own. -/
def sampleLeg (minDepth : ℚ) : PendingLeg :=
  ⟨"lock", some 41, "from", some .ltc, "to", "XCHAIN", some 8, "2.5", some 1000, some minDepth, 1⟩

def sampleView (latest : ℤ) (t : PendingLeg) : View where
  page := fun _ => ⟨"regtest", latest, [t], List.pairwise_singleton _ _⟩
  checkpoints := [⟨.btc, "regtest", ⟨1000, by decide⟩, 1000, ⟨1000, by decide⟩⟩]

def idleGuards : Guards := ⟨OrderedSet.empty, OrderedSet.empty, OrderedMap.empty, []⟩

def sampleHub (tip : SafeNat) (now : Clock) : Hub := ⟨some tip, now, idleGuards⟩

def sampleRow (t : PendingLeg) : Row :=
  transferRow sampleConfig (sampleHub ⟨1199, by decide⟩ ⟨5000, by decide⟩) "regtest" .btc
    ⟨1000, by decide⟩ t

theorem sample_no_other (tip : SafeNat) (now : Clock) (row : Row) :
    NoOther (sampleHub tip now) .btc row :=
  ⟨fun _ member => absurd member List.not_mem_nil, fun member => absurd member OrderedSet.not_mem_empty⟩

/-- A leg that waited two hundred blocks for its depth is proposed with its first checkpoint, and
    a follower at the very same tip refuses it. -/
theorem deep_leg_refused :
    pollLeg sampleConfig (sampleView 1199 (sampleLeg 200))
        (sampleHub ⟨1199, by decide⟩ ⟨5000, by decide⟩) .btc true (sampleLeg 200) =
      some (sampleRow (sampleLeg 200)) ∧
    inWindow (sampleHub ⟨1199, by decide⟩ ⟨5010, by decide⟩) (sampleRow (sampleLeg 200)) = true ∧
    NoOther (sampleHub ⟨1199, by decide⟩ ⟨5010, by decide⟩) .btc (sampleRow (sampleLeg 200)) ∧
    validateProposedMatch sampleConfig (sampleView 1199 (sampleLeg 200))
      (sampleHub ⟨1199, by decide⟩ ⟨5010, by decide⟩) (sampleRow (sampleLeg 200)) (fun _ => false) =
        false :=
  ⟨by decide +kernel, by decide +kernel, sample_no_other _ _ _, by decide +kernel⟩

theorem sample_proposed :
    pollLeg sampleConfig (sampleView 1199 (sampleLeg 100))
        (sampleHub ⟨1199, by decide⟩ ⟨5000, by decide⟩) .btc true (sampleLeg 100) =
      some (sampleRow (sampleLeg 100)) := by
  decide +kernel

theorem sample_digest_named (text : List Char) : sampleConfig.sha256 text ≠ "" := by
  intro same
  have head := congrArg String.toList same
  simp [sampleConfig] at head

theorem sample_leg_cosigned :
    validateProposedMatch sampleConfig (sampleView 1199 (sampleLeg 100))
        (sampleHub ⟨1100, by decide⟩ ⟨5010, by decide⟩) (sampleRow (sampleLeg 100)) (fun _ => false) =
      true ∧
    (validateProposedMatch sampleConfig (sampleView 1199 (sampleLeg 100))
        (sampleHub ⟨1100, by decide⟩ ⟨5010, by decide⟩) (sampleRow (sampleLeg 100)) (fun _ => false) =
        true ↔
      CoSignable sampleConfig (sampleView 1199 (sampleLeg 100))
        (sampleHub ⟨1100, by decide⟩ ⟨5010, by decide⟩) .btc (sampleLeg 100)) :=
  ⟨by decide +kernel, proposed_leg_cosigned_iff sample_digest_named (fun _ => false)
    List.mem_cons_self sample_proposed (by decide +kernel) (by decide +kernel)
    (sample_no_other _ _ _)⟩

end Sample
end XChainHub.CrossChain.Bridge
