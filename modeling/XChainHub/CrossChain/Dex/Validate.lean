import XChainHub.CrossChain.Dex.Match

/-!
The row a leader proposes for a match (dex/finalize.js buildMatchRow and
deriveMatchId) and a follower's confirmation of it from its own books and its own
ledger (dex/validate.js). The canonical is joined from the row's own fields.
-/
namespace XChainHub.CrossChain.Dex
open CanonicalInt Bcmath DecimalText

def OfferKind.text : OfferKind → String
  | .order => "order"
  | .swap => "swap"

structure ProposedLeg where
  chain : String
  actionIndex : Scalar
  kind : String
  tick : Option String
  amount : Option String
  filledBefore : Option String
  ownership : Scalar
  payoutAddr : Option String
  payoutLegs : Option String
  pushGeneration : Scalar

structure ProposedRow where
  matchId : String
  snapshotBlock : Scalar
  network : Option String
  a : ProposedLeg
  b : ProposedLeg
  effectiveTime : Scalar

def relayMinFutureS : ℚ := 60

def maxFutureS : ℚ := 3600

section Propose
variable (venue : Venue)

def idPart (o : Offer) (filledBefore : String) : String :=
  o.homeCoin ++ ":" ++ toString o.actionIndex.val ++ ":" ++ normalizeAmount (some filledBefore)

def deriveMatchId (lo hi : Offer) (snapshotBlock : ℚ) (loFilledBefore hiFilledBefore : String) :
    String :=
  venue.sha256 (lo.homeNetwork ++ "|" ++ idPart lo loFilledBefore ++ "|" ++
    idPart hi hiFilledBefore ++ "|" ++ plainText snapshotBlock)

def flagNumber (owned : Bool) : Scalar := .number (if owned then 1 else 0)

def nonempty (text : Option String) : Option String := if text = some "" then none else text

def buildLeg (o : Offer) (kind : OfferKind) (fill filledBefore : String) : ProposedLeg where
  chain := o.homeCoin
  actionIndex := .number o.actionIndex.val
  kind := kind.text
  tick := nonempty o.giveTick
  amount := some fill
  filledBefore := some filledBefore
  ownership := flagNumber o.giveOwnership
  payoutAddr := o.getAddress
  payoutLegs := nonempty o.payoutLegs
  pushGeneration := .number o.pushGeneration

def buildMatchRow (desc : Descriptor) (matchId : String) (snapshotBlock effectiveTime : SafeNat) :
    ProposedRow where
  matchId := matchId
  snapshotBlock := .number snapshotBlock.val
  network := some desc.network
  a := buildLeg desc.lo desc.loKind desc.loFill desc.loFilledBefore
  b := buildLeg desc.hi desc.hiKind desc.hiFill desc.hiFilledBefore
  effectiveTime := .number effectiveTime.val

/- finalizeMatch up to the round. -/
def proposedRow (snapshotBlock effectiveTime : SafeNat) (desc : Descriptor) : ProposedRow :=
  buildMatchRow desc
    (deriveMatchId venue desc.lo desc.hi snapshotBlock.val desc.loFilledBefore desc.hiFilledBefore)
    snapshotBlock effectiveTime

/- The books discoverAndMatch matches over, their lists read at the snapshot block. -/
def preparedBook (snapshotBlock : SafeNat) (coin : String) : List Offer :=
  (loadOfferBook venue coin).map (prepareOfferList venue snapshotBlock.val)

end Propose

section Follow

/- What a hub matches and validates with; committedReady is false until the ledger rebuilt. -/
structure DexHub where
  venue : Venue
  committed : Ledger
  committedReady : Bool
  nowSeconds : ℕ

def dexCanonicalIntFields (row : ProposedRow) : List Scalar :=
  [row.snapshotBlock, row.a.actionIndex, row.b.actionIndex, row.a.ownership, row.b.ownership,
    row.effectiveTime]

def timeInWindow (nowSeconds : ℕ) (effectiveTime : Option ℚ) : Bool :=
  match effectiveTime with
  | none => false
  | some t => !(t - nowSeconds > maxFutureS) && !(t - nowSeconds < relayMinFutureS)

def proposedMatchInBounds (hub : DexHub) (row : ProposedRow) : Bool :=
  hub.committedReady && row.a.chain ≠ row.b.chain &&
    (dexCanonicalIntFields row).all isCanonicalInt &&
    timeInWindow hub.nowSeconds row.effectiveTime.toNumber

def generationOf (v : Scalar) : ℚ := v.toNumber.getD 0

/- One leg of the row against the same leg of the re-derived match. -/
def legConfirmed (leg : ProposedLeg) (o : Offer) (kind : OfferKind) (fill filledBefore : String) :
    Bool :=
  kind.text = leg.kind && amountsEqual (some fill) leg.amount &&
    amountsEqual (some filledBefore) leg.filledBefore &&
    leg.payoutLegs.getD "" = o.payoutLegs.getD "" &&
    generationOf leg.pushGeneration = o.pushGeneration

def descriptorConfirms (hub : DexHub) (row : ProposedRow) (snapshotBlock : ℚ)
    (desc : Descriptor) : Bool :=
  legConfirmed row.a desc.lo desc.loKind desc.loFill desc.loFilledBefore &&
    legConfirmed row.b desc.hi desc.hiKind desc.hiFill desc.hiFilledBefore &&
    hub.venue.toLowerCase (deriveMatchId hub.venue desc.lo desc.hi snapshotBlock
      desc.loFilledBefore desc.hiFilledBefore) = hub.venue.toLowerCase row.matchId

/- A snapshot block that is no number is refused above, as no canonical integer. -/
def validateProposedMatch (hub : DexHub) (row : ProposedRow) : Bool :=
  if !proposedMatchInBounds hub row then false
  else
    match findOpenOffer hub.venue row.a.chain row.a.actionIndex.toNumber,
      findOpenOffer hub.venue row.b.chain row.b.actionIndex.toNumber,
      row.snapshotBlock.toNumber with
    | some a, some b, some snapshotBlock =>
      if a.homeNetwork ≠ row.network.getD "" || b.homeNetwork ≠ row.network.getD "" then false
      else
        match tryMatch hub.venue hub.committed (prepareOfferList hub.venue snapshotBlock a)
          (prepareOfferList hub.venue snapshotBlock b) (.block snapshotBlock) with
        | none => false
        | some desc => descriptorConfirms hub row snapshotBlock desc
    | _, _, _ => false

end Follow

section Books
variable {venue : Venue}

theorem listed_offer_found {coin : String} {o : Offer} (listed : o ∈ loadOfferBook venue coin) :
    o.homeCoin = coin ∧ findOpenOffer venue coin (some o.actionIndex.val) = some o := by
  unfold loadOfferBook at listed
  unfold findOpenOffer
  cases answer : venue.orders coin with
  | none => simp [answer] at listed
  | some reply =>
    simp only [answer] at listed ⊢
    by_cases unnamed : reply.network = ""
    · simp [unnamed] at listed
    · rw [if_neg unnamed] at listed ⊢
      obtain ⟨order, kept, rfl⟩ := List.mem_map.mp listed
      obtain ⟨member, deep⟩ := List.mem_filter.mp kept
      have found : reply.orders.find? (fun x => some (x.actionIndex.val : ℚ) =
          some ((tagged coin reply order).actionIndex.val : ℚ)) = some order := by
        obtain ⟨first, hit⟩ : ∃ first, reply.orders.find? (fun x =>
            some (x.actionIndex.val : ℚ) = some ((tagged coin reply order).actionIndex.val : ℚ)) =
              some first := by
          rw [← Option.isSome_iff_exists, List.find?_isSome]
          exact ⟨order, member, by simp [tagged]⟩
        have same : first.actionIndex = order.actionIndex := by
          have equal := List.find?_some hit
          simp only [decide_eq_true_eq, Option.some.injEq, Nat.cast_inj] at equal
          exact Subtype.ext equal
        rw [hit,
          List.inj_on_of_nodup_map reply.distinct (List.mem_of_find?_eq_some hit) member same]
      refine ⟨rfl, ?_⟩
      rw [found]
      exact if_pos deep

/- An offer of the leader's books, found again with its lists read at the same block. -/
structure Reread (venue : Venue) (snapshotBlock : SafeNat) (o : Offer) : Prop where
  found : ∃ open', findOpenOffer venue o.homeCoin (some o.actionIndex.val) = some open' ∧
    prepareOfferList venue snapshotBlock.val open' = o ∧ open'.homeNetwork = o.homeNetwork

theorem prepared_offer_reread {snapshotBlock : SafeNat} {o : Offer}
    (listed : o ∈ allowedChains.flatMap (preparedBook venue snapshotBlock)) :
    Reread venue snapshotBlock o := by
  obtain ⟨coin, -, prepared⟩ := List.mem_flatMap.mp listed
  obtain ⟨bare, member, rfl⟩ := List.mem_map.mp prepared
  obtain ⟨home, found⟩ := listed_offer_found member
  constructor
  refine ⟨bare, ?_, rfl, rfl⟩
  simp only [prepareOfferList, home]
  exact found

end Books

section Acceptance
variable {hub : DexHub} {snapshotBlock effectiveTime : SafeNat}

theorem own_leg_confirmed (o : Offer) (kind : OfferKind) (fill filledBefore : String) :
    legConfirmed (buildLeg o kind fill filledBefore) o kind fill filledBefore = true := by
  have legs : (nonempty o.payoutLegs).getD "" = o.payoutLegs.getD "" := by
    unfold nonempty
    split
    next empty => rw [empty]; rfl
    next => rfl
  simp [legConfirmed, buildLeg, legs, amountsEqual, generationOf, Scalar.toNumber]

theorem own_row_confirmed (desc : Descriptor) :
    descriptorConfirms hub (proposedRow hub.venue snapshotBlock effectiveTime desc)
      snapshotBlock.val desc = true := by
  simp [descriptorConfirms, proposedRow, buildMatchRow, own_leg_confirmed]

theorem flag_canonical (owned : Bool) : isCanonicalInt (flagNumber owned) = true := by
  cases owned <;> decide

theorem own_row_in_bounds {desc : Descriptor} (ready : hub.committedReady = true)
    (apart : desc.lo.homeCoin ≠ desc.hi.homeCoin)
    (window : timeInWindow hub.nowSeconds (some effectiveTime.val) = true) :
    proposedMatchInBounds hub (proposedRow hub.venue snapshotBlock effectiveTime desc) = true := by
  have ints : (dexCanonicalIntFields
      (proposedRow hub.venue snapshotBlock effectiveTime desc)).all isCanonicalInt = true := by
    simp [dexCanonicalIntFields, proposedRow, buildMatchRow, buildLeg, flag_canonical,
      safe_nat_canonical]
  unfold proposedMatchInBounds
  rw [ready, ints]
  simpa [proposedRow, buildMatchRow, buildLeg, apart, Scalar.toNumber] using window

theorem rederived_row_accepted {desc : Descriptor} (ready : hub.committedReady = true)
    (window : timeInWindow hub.nowSeconds (some effectiveTime.val) = true)
    (lo : Reread hub.venue snapshotBlock desc.lo) (hi : Reread hub.venue snapshotBlock desc.hi)
    (rederived : tryMatch hub.venue hub.committed desc.lo desc.hi (.block snapshotBlock.val) =
      some desc) :
    validateProposedMatch hub (proposedRow hub.venue snapshotBlock effectiveTime desc) = true := by
  have paired := try_match_paired rederived
  have bounds : proposedMatchInBounds hub
      (proposedRow hub.venue snapshotBlock effectiveTime desc) = true :=
    own_row_in_bounds ready paired.apart window
  obtain ⟨loOpen, loFound, loPrepared, loNetwork⟩ := lo
  obtain ⟨hiOpen, hiFound, hiPrepared, hiNetwork⟩ := hi
  have aFound : findOpenOffer hub.venue
      (proposedRow hub.venue snapshotBlock effectiveTime desc).a.chain
      (proposedRow hub.venue snapshotBlock effectiveTime desc).a.actionIndex.toNumber =
        some loOpen := loFound
  have bFound : findOpenOffer hub.venue
      (proposedRow hub.venue snapshotBlock effectiveTime desc).b.chain
      (proposedRow hub.venue snapshotBlock effectiveTime desc).b.actionIndex.toNumber =
        some hiOpen := hiFound
  have block : (proposedRow hub.venue snapshotBlock effectiveTime desc).snapshotBlock.toNumber =
      some (snapshotBlock.val : ℚ) := rfl
  have networks : loOpen.homeNetwork = desc.network ∧ hiOpen.homeNetwork = desc.network := by
    rw [loNetwork, hiNetwork, paired.network]
    exact ⟨rfl, paired.sameNetwork.symm⟩
  have rowNetwork : (proposedRow hub.venue snapshotBlock effectiveTime desc).network.getD "" =
      desc.network := rfl
  unfold validateProposedMatch
  simp only [bounds, aFound, bFound, block, rowNetwork, networks, loPrepared, hiPrepared,
    rederived, own_row_confirmed]
  simp

/-- A follower with the leader's books, ledger and a clock in the window accepts every row
    the leader proposes; and no pair depends on which side is listed first. -/
theorem follower_derives_the_match (leader follower : DexHub) (snapshotBlock : SafeNat)
    (books : follower.venue = leader.venue) (ledger : follower.committed = leader.committed)
    (ready : follower.committedReady = true) :
    (∀ effectiveTime : SafeNat,
      timeInWindow follower.nowSeconds (some effectiveTime.val) = true →
      ∀ desc ∈ findMatches leader.venue leader.committed
          (preparedBook leader.venue snapshotBlock) (.block snapshotBlock.val),
        validateProposedMatch follower
          (proposedRow leader.venue snapshotBlock effectiveTime desc) = true) ∧
    ∀ (a b : Offer) (era : PriceEra), tryMatch leader.venue leader.committed a b era =
      tryMatch leader.venue leader.committed b a era := by
  constructor
  · intro effectiveTime window desc listed
    rw [← books, ← ledger] at listed
    obtain ⟨a, aListed, b, bListed, -, -, matched⟩ := matches_from_book desc listed
    have aReread := prepared_offer_reread aListed
    have bReread := prepared_offer_reread bListed
    have rederived := match_rederived matched
    rw [← books]
    rcases (try_match_paired matched).sides with ⟨lo, hi⟩ | ⟨lo, hi⟩
    · exact rederived_row_accepted ready window (lo ▸ aReread) (hi ▸ bReread) rederived
    · exact rederived_row_accepted ready window (lo ▸ bReread) (hi ▸ aReread) rederived
  · intro a b era
    exact match_comm a b era

section Sample

def sampleBlock : SafeNat := ⟨800, by decide⟩

def sampleTime : SafeNat := ⟨1700000600, by decide⟩

def sampleOrder (giveCoin getCoin give get : String) : Order where
  actionIndex := ⟨7, by decide⟩
  blockIndex := some sampleBlock
  kind := some "order"
  giveCoin := giveCoin
  getCoin := getCoin
  giveTick := none
  getTick := none
  giveAmount := some give
  getAmount := some get
  giveOwnership := false
  getOwnership := false
  giveDecimals := some 8
  getAddress := some "payout"
  payoutLegs := none
  pushGeneration := 3
  allowList := some .null
  blockList := some .null

def sampleVenue : Venue where
  orders := fun coin =>
    if coin = "BTC" then
      some ⟨"mainnet", some 900, [sampleOrder "BTC" "LTC" "2" "150.5"], by decide⟩
    else if coin = "LTC" then
      some ⟨"mainnet", some 900, [sampleOrder "LTC" "BTC" "60" "0.7"], by decide⟩
    else none
  minConfirmations := fun _ => 6
  getlistat := fun _ _ _ => none
  listEnforcement := fun _ _ => some true
  priceCross := fun _ _ => true
  sha256 := id
  toLowerCase := id

def sampleHub : DexHub := ⟨sampleVenue, .empty, true, 1700000000⟩

/- One partial fill is proposed, and accepted ten minutes ahead of the clock. -/
theorem sample_match_accepted :
    (findMatches sampleVenue .empty
      (preparedBook sampleVenue sampleBlock) (.block 800)).length = 1 ∧
    ∀ desc ∈ findMatches sampleVenue .empty (preparedBook sampleVenue sampleBlock)
        (.block sampleBlock.val),
      validateProposedMatch sampleHub
        (proposedRow sampleVenue sampleBlock sampleTime desc) = true := by
  constructor
  · decide +kernel
  · exact (follower_derives_the_match sampleHub sampleHub sampleBlock rfl rfl rfl).1 sampleTime
      (by decide +kernel)

end Sample

end Acceptance

end XChainHub.CrossChain.Dex
