import Mathlib.Data.String.Basic
import XChainHub.CrossChain.Dex.Offers

/-!
Pairing of open offers: cross_chain/dex/match.js, price_cross.js and the ORDER
fill of dex_engine.js. Amounts of an offer are texts; the clamp works on their
values and a fill is written as the plain text of its value.
-/
namespace XChainHub.CrossChain.Dex
open CanonicalInt Bcmath DecimalText

section Amounts

def dropLeadingZeros (cs : List Char) : List Char := cs.dropWhile (fun c => c = '0')

def dropTrailingZeros (cs : List Char) : List Char := (dropLeadingZeros cs.reverse).reverse

/- parts[0] and parts[1] of a split at the points; any further parts are ignored. -/
def normalizeUnsigned (cs : List Char) : List Char :=
  let parts := cs.splitOn '.'
  let kept := dropLeadingZeros (parts.getD 0 [])
  let whole := if kept = [] then ['0'] else kept
  let frac := dropTrailingZeros (parts.getD 1 [])
  if frac = [] then whole else whole ++ '.' :: frac

def normalizeChars : List Char → List Char
  | [] => []
  | '-' :: cs =>
    let out := normalizeUnsigned cs
    if out = ['0'] then out else '-' :: out
  | cs => normalizeUnsigned cs

def normalizeAmount (v : Option String) : String :=
  match v with
  | none => ""
  | some s => String.ofList (normalizeChars (trim s.toList))

def amountsEqual (x y : Option String) : Bool := normalizeAmount x = normalizeAmount y

def Order.giveValue (o : Order) : ℚ := bcnum (o.giveAmount.getD "0")

def Order.getValue (o : Order) : ℚ := bcnum (o.getAmount.getD "0")

end Amounts

section Pricing
variable (venue : Venue) (ledger : Ledger)

/- anyPrice stands for the discovery pass, before a snapshot block is known. -/
inductive PriceEra where
  | anyPrice
  | block (snapshotBlock : ℚ)

def pricesCross (network : String) (era : PriceEra) (makerGetPrice takerGivePrice : ℚ) : Bool :=
  match era with
  | .anyPrice => true
  | .block snapshotBlock =>
    if venue.priceCross network snapshotBlock then !(takerGivePrice > makerGetPrice)
    else !(makerGetPrice > takerGivePrice)

def Order.blockNumber (o : Order) : ℕ := (o.blockIndex.map Subtype.val).getD 0

def offerCmp (a b : Offer) : Ordering :=
  if a.blockNumber ≠ b.blockNumber then
    if a.blockNumber < b.blockNumber then .lt else .gt
  else if a.homeCoin ≠ b.homeCoin then
    if a.homeCoin < b.homeCoin then .lt else .gt
  else if a.actionIndex ≠ b.actionIndex then
    if a.actionIndex < b.actionIndex then .lt else .gt
  else .eq

/- Each side gives what the other wants, ownership flags included. -/
def mirrored (a b : Offer) : Bool :=
  a.giveCoin = b.getCoin && a.getCoin = b.giveCoin &&
    a.giveTick.getD "" = b.getTick.getD "" && a.getTick.getD "" = b.giveTick.getD "" &&
    a.giveOwnership = b.getOwnership && a.getOwnership = b.giveOwnership

structure Pricing where
  maker : Offer
  taker : Offer
  ownership : Bool
  takerGivePrice : ℚ
  takerGetPrice : ℚ
  takerRem : Remaining
  makerRem : Remaining

def makerIsFirst (a b : Offer) : Bool := (offerCmp a b).isLE

/- orderPricing once the maker and the taker are told apart. -/
def pricedPair (maker taker : Offer) (era : PriceEra) : Option Pricing :=
  let takerGivePrice := getPrice taker.getValue taker.giveValue
  let takerGetPrice := getPrice taker.giveValue taker.getValue
  let makerGetPrice := getPrice maker.giveValue maker.getValue
  if !pricesCross venue maker.homeNetwork era makerGetPrice takerGivePrice then none
  else
    let takerRem := effectiveRemaining ledger taker
    let makerRem := effectiveRemaining ledger maker
    if takerRem.give ≤ 0 || makerRem.give ≤ 0 then none
    else if takerRem.get ≤ 0 || makerRem.get ≤ 0 then none
    else
      some ⟨maker, taker,
        maker.giveOwnership || maker.getOwnership || taker.giveOwnership || taker.getOwnership,
        takerGivePrice, takerGetPrice, takerRem, makerRem⟩

def orderPricing (a b : Offer) (era : PriceEra) : Option Pricing :=
  if !mirrored a b then none
  else if makerIsFirst a b then pricedPair venue ledger a b era
  else pricedPair venue ledger b a era

def giveDecimals (o : Offer) : Option ℕ :=
  match o.giveDecimals with
  | none => none
  | some n => if n.den = 1 && 0 ≤ n && n ≤ 18 then some n.num.toNat else none

structure Fill where
  takerGive : String
  takerGet : String

/- Each amount on the grid of the leg that gives it; dust that rounds to zero is no fill. -/
def quantizeFill (maker taker : Offer) (takerGive takerGet : ℚ) : Option Fill :=
  match giveDecimals taker, giveDecimals maker with
  | some takerDecimals, some makerDecimals =>
    let give := bcround takerGive takerDecimals
    let get := bcround takerGet makerDecimals
    if give ≤ 0 || get ≤ 0 then none else some ⟨bcstr give, bcstr get⟩
  | _, _ => none

def Pricing.maxGive (p : Pricing) : ℚ :=
  if p.makerRem.get < p.takerRem.give then p.makerRem.get else p.takerRem.give

def Pricing.maxGet (p : Pricing) : ℚ :=
  if p.makerRem.give < p.takerRem.get then p.makerRem.give else p.takerRem.get

/- The bottleneck clamp: what the taker gives and gets before quantizing. -/
def clamp (p : Pricing) : ℚ × ℚ :=
  let giveFromGet := bcmul p.maxGet p.takerGetPrice 64
  if giveFromGet > p.maxGive then (p.maxGive, bcmul p.maxGive p.takerGivePrice 64)
  else (giveFromGet, p.maxGet)

/- An ownership order fills in full or not at all; String(null) is not a numeral. -/
def ownershipExact (p : Pricing) (fill : Fill) : Bool :=
  amountsEqual (some fill.takerGive)
      (if p.taker.giveOwnership then some "1" else some (p.taker.giveAmount.getD "null")) &&
    amountsEqual (some fill.takerGet)
      (if p.taker.getOwnership then some "1" else some (p.taker.getAmount.getD "null"))

def pricedFill (p : Pricing) : Option Fill :=
  match quantizeFill p.maker p.taker (clamp p).1 (clamp p).2 with
  | none => none
  | some fill => if p.ownership && !ownershipExact p fill then none else some fill

inductive OfferKind where
  | order
  | swap
  deriving DecidableEq

def Order.offerKind (o : Order) : OfferKind := if o.kind = some "order" then .order else .swap

structure Descriptor where
  lo : Offer
  hi : Offer
  loKind : OfferKind
  hiKind : OfferKind
  loFill : String
  hiFill : String
  loFilledBefore : String
  hiFilledBefore : String
  network : String

def orderedDesc (lo hi : Offer) (loKind hiKind : OfferKind) (loFill hiFill : String) :
    Descriptor :=
  ⟨lo, hi, loKind, hiKind, bcstr (bcnum loFill), bcstr (bcnum hiFill),
    bcstr (bcnum (committedFor ledger lo).give), bcstr (bcnum (committedFor ledger hi).give),
    lo.homeNetwork⟩

/- The network is a's, and both sides are on it. -/
def buildDesc (a b : Offer) (aKind bKind : OfferKind) (aGiveFill bGiveFill : String) :
    Descriptor :=
  if a.homeCoin ≤ b.homeCoin then
    { orderedDesc ledger a b aKind bKind aGiveFill bGiveFill with network := a.homeNetwork }
  else { orderedDesc ledger b a bKind aKind bGiveFill aGiveFill with network := a.homeNetwork }

def tryOrderMatch (a b : Offer) (era : PriceEra) : Option Descriptor :=
  match orderPricing venue ledger a b era with
  | none => none
  | some p =>
    match pricedFill p with
    | none => none
    | some fill =>
      -- a is the taker exactly where b is the maker
      let aGiveFill := if makerIsFirst a b then fill.takerGet else fill.takerGive
      let bGiveFill := if makerIsFirst a b then fill.takerGive else fill.takerGet
      some (buildDesc ledger a b .order .order aGiveFill bGiveFill)

def isExactMatch (a b : Offer) : Bool :=
  a.homeCoin ≠ b.homeCoin && a.homeNetwork = b.homeNetwork && a.homeNetwork ≠ "" &&
    mirrored a b && amountsEqual a.giveAmount b.getAmount && amountsEqual a.getAmount b.giveAmount

def swapMatch (a b : Offer) : Option Descriptor :=
  if !isExactMatch a b then none
  else if (effectiveRemaining ledger a).give ≤ 0 || (effectiveRemaining ledger b).give ≤ 0 then none
  else
    some (buildDesc ledger a b .swap .swap (bcstr a.giveValue) (bcstr b.giveValue))

def tryMatch (a b : Offer) (era : PriceEra) : Option Descriptor :=
  if a.homeCoin = b.homeCoin then none
  else if a.homeNetwork ≠ b.homeNetwork || a.homeNetwork = "" then none
  else if !offerPairAllowed a b then none
  else
    match a.offerKind, b.offerKind with
    | .swap, .swap => swapMatch ledger a b
    | .order, .order => tryOrderMatch venue ledger a b era
    | _, _ => none

end Pricing

section Pass
variable (venue : Venue) (ledger : Ledger)

/- The inner loop: the first later offer, not yet used, that matches. -/
def firstMatch (era : PriceEra) (used : List OfferKey) (a : Offer) (rest : List Offer) :
    Option (Offer × Descriptor) :=
  rest.findSome? (fun b =>
    if b.key ∈ used then none else (tryMatch venue ledger a b era).map (fun desc => (b, desc)))

/- The outer loop; used grows by the two offers of each match. -/
def matchesFrom (era : PriceEra) (used : List OfferKey) : List Offer → List Descriptor
  | [] => []
  | a :: rest =>
    if a.key ∈ used then matchesFrom era used rest
    else
      match firstMatch venue ledger era used a rest with
      | none => matchesFrom era used rest
      | some (b, desc) => desc :: matchesFrom era (a.key :: b.key :: used) rest

def findMatches (offersByCoin : String → List Offer) (era : PriceEra) : List Descriptor :=
  matchesFrom venue ledger era [] (allowedChains.flatMap offersByCoin)

end Pass

section Symmetry
variable {venue : Venue} {ledger : Ledger}

theorem offer_cmp_swap {a b : Offer} (apart : a.homeCoin ≠ b.homeCoin) :
    makerIsFirst b a = !makerIsFirst a b := by
  unfold makerIsFirst offerCmp
  by_cases block : a.blockNumber = b.blockNumber
  · rcases lt_or_gt_of_ne apart with low | high
    · simp [block, apart, apart.symm, low, not_lt_of_gt low]
    · simp [block, apart, apart.symm, high, not_lt_of_gt high]
  · rcases Nat.lt_or_gt_of_ne block with low | high
    · simp [block, Ne.symm block, low, Nat.not_lt.mpr low.le]
    · simp [block, Ne.symm block, high, Nat.not_lt.mpr high.le]

theorem mirrored_comm (a b : Offer) : mirrored a b = mirrored b a := by
  unfold mirrored
  rw [Bool.eq_iff_iff]
  simp only [Bool.and_eq_true, decide_eq_true_eq]
  constructor
  · rintro ⟨⟨⟨⟨⟨coin, other⟩, tick⟩, wanted⟩, owned⟩, taken⟩
    exact ⟨⟨⟨⟨⟨other.symm, coin.symm⟩, wanted.symm⟩, tick.symm⟩, taken.symm⟩, owned.symm⟩
  · rintro ⟨⟨⟨⟨⟨coin, other⟩, tick⟩, wanted⟩, owned⟩, taken⟩
    exact ⟨⟨⟨⟨⟨other.symm, coin.symm⟩, wanted.symm⟩, tick.symm⟩, taken.symm⟩, owned.symm⟩

theorem offer_pair_allowed_comm (a b : Offer) : offerPairAllowed a b = offerPairAllowed b a := by
  unfold offerPairAllowed
  cases a.lists with
  | none => cases b.lists <;> rfl
  | some left =>
    cases b.lists with
    | none => rfl
    | some right =>
      have enforced : decide (left.enforced = right.enforced) =
          decide (right.enforced = left.enforced) := decide_eq_decide.mpr eq_comm
      simp only
      rw [Bool.and_assoc, Bool.and_assoc, Bool.and_comm (oneSideAllows a b), enforced]

theorem order_pricing_comm {a b : Offer} (apart : a.homeCoin ≠ b.homeCoin) (era : PriceEra) :
    orderPricing venue ledger a b era = orderPricing venue ledger b a era := by
  unfold orderPricing
  rw [mirrored_comm a b, offer_cmp_swap apart]
  cases makerIsFirst a b <;> rfl

theorem build_desc_comm {a b : Offer} (apart : a.homeCoin ≠ b.homeCoin)
    (network : a.homeNetwork = b.homeNetwork) (aKind bKind : OfferKind) (aFill bFill : String) :
    buildDesc ledger a b aKind bKind aFill bFill =
      buildDesc ledger b a bKind aKind bFill aFill := by
  unfold buildDesc
  rcases lt_or_gt_of_ne apart with low | high
  · rw [if_pos low.le, if_neg (not_le.mpr low), network]
  · rw [if_neg (not_le.mpr high), if_pos high.le, network]

theorem try_order_match_comm {a b : Offer} (apart : a.homeCoin ≠ b.homeCoin)
    (network : a.homeNetwork = b.homeNetwork) (era : PriceEra) :
    tryOrderMatch venue ledger a b era = tryOrderMatch venue ledger b a era := by
  unfold tryOrderMatch
  rw [order_pricing_comm apart, offer_cmp_swap apart]
  cases orderPricing venue ledger b a era with
  | none => rfl
  | some p =>
    cases fill : pricedFill p with
    | none => simp only [fill]
    | some fill =>
      simp only [build_desc_comm apart network]
      cases makerIsFirst a b <;> rfl

theorem is_exact_match_comm (a b : Offer) : isExactMatch a b = isExactMatch b a := by
  unfold isExactMatch amountsEqual
  rw [mirrored_comm a b, Bool.eq_iff_iff]
  simp only [Bool.and_eq_true, decide_eq_true_eq]
  constructor
  · rintro ⟨⟨⟨⟨⟨apart, network⟩, named⟩, mirror⟩, give⟩, get⟩
    exact ⟨⟨⟨⟨⟨apart.symm, network.symm⟩, network ▸ named⟩, mirror⟩, get.symm⟩, give.symm⟩
  · rintro ⟨⟨⟨⟨⟨apart, network⟩, named⟩, mirror⟩, give⟩, get⟩
    exact ⟨⟨⟨⟨⟨apart.symm, network.symm⟩, network ▸ named⟩, mirror⟩, get.symm⟩, give.symm⟩

theorem swap_match_comm {a b : Offer} (apart : a.homeCoin ≠ b.homeCoin)
    (network : a.homeNetwork = b.homeNetwork) :
    swapMatch ledger a b = swapMatch ledger b a := by
  unfold swapMatch
  rw [is_exact_match_comm a b, Bool.or_comm, build_desc_comm apart network]

/-- Which side is named first changes nothing. -/
theorem match_comm (a b : Offer) (era : PriceEra) :
    tryMatch venue ledger a b era = tryMatch venue ledger b a era := by
  unfold tryMatch
  by_cases apart : a.homeCoin = b.homeCoin
  · rw [if_pos apart, if_pos apart.symm]
  · rw [if_neg apart, if_neg (Ne.symm apart)]
    by_cases network : a.homeNetwork = b.homeNetwork
    · rw [network, offer_pair_allowed_comm a b, swap_match_comm apart network,
        try_order_match_comm apart network]
      cases a.offerKind <;> cases b.offerKind <;> rfl
    · simp [network, Ne.symm network]

end Symmetry

section Shape
variable {venue : Venue} {ledger : Ledger}

/- A descriptor of a pair: both offers, told apart by coin, on one network. -/
structure PairedFrom (a b : Offer) (desc : Descriptor) : Prop where
  apart : a.homeCoin ≠ b.homeCoin
  sameNetwork : a.homeNetwork = b.homeNetwork
  network : desc.network = a.homeNetwork
  sides : (desc.lo = a ∧ desc.hi = b) ∨ (desc.lo = b ∧ desc.hi = a)

theorem build_desc_paired {a b : Offer} (apart : a.homeCoin ≠ b.homeCoin)
    (network : a.homeNetwork = b.homeNetwork) (aKind bKind : OfferKind) (aFill bFill : String) :
    PairedFrom a b (buildDesc ledger a b aKind bKind aFill bFill) := by
  unfold buildDesc
  split
  · exact ⟨apart, network, rfl, Or.inl ⟨rfl, rfl⟩⟩
  · exact ⟨apart, network, rfl, Or.inr ⟨rfl, rfl⟩⟩

/- What a swap pair passed on its way to a descriptor. -/
structure SwapMatched (ledger : Ledger) (a b : Offer) (desc : Descriptor) : Prop where
  kinds : a.offerKind = .swap ∧ b.offerKind = .swap
  aLeft : 0 < (effectiveRemaining ledger a).give
  bLeft : 0 < (effectiveRemaining ledger b).give
  built : desc = buildDesc ledger a b .swap .swap (bcstr a.giveValue) (bcstr b.giveValue)

/- And an order pair, with the fill of its pricing. -/
structure OrderMatched (venue : Venue) (ledger : Ledger) (a b : Offer) (era : PriceEra)
    (desc : Descriptor) (p : Pricing) (fill : Fill) : Prop where
  kinds : a.offerKind = .order ∧ b.offerKind = .order
  priced : orderPricing venue ledger a b era = some p
  filled : pricedFill p = some fill
  built : desc = buildDesc ledger a b .order .order
    (if makerIsFirst a b then fill.takerGet else fill.takerGive)
    (if makerIsFirst a b then fill.takerGive else fill.takerGet)

/- Everything a pair that matches passed. -/
structure Matched (venue : Venue) (ledger : Ledger) (a b : Offer) (era : PriceEra)
    (desc : Descriptor) : Prop where
  apart : a.homeCoin ≠ b.homeCoin
  sameNetwork : a.homeNetwork = b.homeNetwork
  kind : SwapMatched ledger a b desc ∨
    ∃ p fill, OrderMatched venue ledger a b era desc p fill

theorem swap_match_cases {a b : Offer} {desc : Descriptor}
    (kinds : a.offerKind = .swap ∧ b.offerKind = .swap)
    (matched : swapMatch ledger a b = some desc) : SwapMatched ledger a b desc := by
  unfold swapMatch at matched
  split at matched
  · cases matched
  · split at matched
    · cases matched
    next left =>
      simp only [Bool.or_eq_true, decide_eq_true_eq, not_or, not_le] at left
      cases matched
      exact ⟨kinds, left.1, left.2, rfl⟩

theorem try_order_match_cases {a b : Offer} {era : PriceEra} {desc : Descriptor}
    (kinds : a.offerKind = .order ∧ b.offerKind = .order)
    (matched : tryOrderMatch venue ledger a b era = some desc) :
    ∃ p fill, OrderMatched venue ledger a b era desc p fill := by
  unfold tryOrderMatch at matched
  split at matched
  · cases matched
  next p priced =>
    split at matched
    · cases matched
    next fill filled =>
      cases matched
      exact ⟨p, fill, kinds, priced, filled, rfl⟩

theorem try_match_cases {a b : Offer} {era : PriceEra} {desc : Descriptor}
    (matched : tryMatch venue ledger a b era = some desc) : Matched venue ledger a b era desc := by
  unfold tryMatch at matched
  split at matched
  · cases matched
  next apart =>
    split at matched
    · cases matched
    next networks =>
      simp only [ne_eq, Bool.or_eq_true, decide_eq_true_eq, not_or, not_not] at networks
      split at matched
      · cases matched
      · split at matched
        next aKind bKind =>
          exact ⟨apart, networks.1, Or.inl (swap_match_cases ⟨aKind, bKind⟩ matched)⟩
        next aKind bKind =>
          exact ⟨apart, networks.1, Or.inr (try_order_match_cases ⟨aKind, bKind⟩ matched)⟩
        · cases matched

theorem try_match_paired {a b : Offer} {era : PriceEra} {desc : Descriptor}
    (matched : tryMatch venue ledger a b era = some desc) : PairedFrom a b desc := by
  have cases := try_match_cases matched
  rcases cases.kind with swap | ⟨p, fill, order⟩
  · rw [swap.built]
    exact build_desc_paired cases.apart cases.sameNetwork ..
  · rw [order.built]
    exact build_desc_paired cases.apart cases.sameNetwork ..

/-- The sides in canonical order match to the same descriptor. -/
theorem match_rederived {a b : Offer} {era : PriceEra} {desc : Descriptor}
    (matched : tryMatch venue ledger a b era = some desc) :
    tryMatch venue ledger desc.lo desc.hi era = some desc := by
  rcases (try_match_paired matched).sides with ⟨lo, hi⟩ | ⟨lo, hi⟩
  · rw [lo, hi]
    exact matched
  · rw [lo, hi, match_comm b a]
    exact matched

end Shape

section Members
variable {venue : Venue} {ledger : Ledger} {era : PriceEra}

theorem first_match_found {used : List OfferKey} {a b : Offer} {rest : List Offer}
    {desc : Descriptor} (found : firstMatch venue ledger era used a rest = some (b, desc)) :
    b ∈ rest ∧ b.key ∉ used ∧ tryMatch venue ledger a b era = some desc := by
  obtain ⟨offer, member, matched⟩ := List.exists_of_findSome?_eq_some found
  split at matched
  · cases matched
  next unused =>
    obtain ⟨desc', made, same⟩ := Option.map_eq_some_iff.mp matched
    cases same
    exact ⟨member, unused, made⟩

/- A descriptor of two unused offers of the book. -/
def FromBook (venue : Venue) (ledger : Ledger) (era : PriceEra) (used : List OfferKey)
    (book : List Offer) (desc : Descriptor) : Prop :=
  ∃ a ∈ book, ∃ b ∈ book, a.key ∉ used ∧ b.key ∉ used ∧ tryMatch venue ledger a b era = some desc

theorem from_book_mono {used used' : List OfferKey} {book : List Offer} {a : Offer}
    {desc : Descriptor} (fewer : used ⊆ used')
    (found : FromBook venue ledger era used' book desc) :
    FromBook venue ledger era used (a :: book) desc := by
  obtain ⟨x, xListed, y, yListed, xUnused, yUnused, matched⟩ := found
  exact ⟨x, List.mem_cons_of_mem a xListed, y, List.mem_cons_of_mem a yListed,
    fun member => xUnused (fewer member), fun member => yUnused (fewer member), matched⟩

theorem matches_from_book {used : List OfferKey} {book : List Offer} :
    ∀ desc ∈ matchesFrom venue ledger era used book,
      FromBook venue ledger era used book desc := by
  induction book generalizing used with
  | nil =>
    intro desc listed
    cases listed
  | cons a rest ih =>
    intro desc listed
    unfold matchesFrom at listed
    split at listed
    · exact from_book_mono (List.Subset.refl used) (ih desc listed)
    next unused =>
      split at listed
      · exact from_book_mono (List.Subset.refl used) (ih desc listed)
      next b desc' found =>
        cases listed with
        | head =>
          obtain ⟨member, free, matched⟩ := first_match_found found
          exact ⟨a, List.mem_cons_self, b, List.mem_cons_of_mem a member, unused, free, matched⟩
        | tail _ member =>
          have more : used ⊆ a.key :: b.key :: used := fun key old =>
            List.mem_cons_of_mem _ (List.mem_cons_of_mem _ old)
          exact from_book_mono more (ih desc member)

def Descriptor.keys (desc : Descriptor) : List OfferKey := [desc.lo.key, desc.hi.key]

theorem paired_keys {a b : Offer} {desc : Descriptor} (paired : PairedFrom a b desc)
    (key : OfferKey) : key ∈ desc.keys ↔ key = a.key ∨ key = b.key := by
  unfold Descriptor.keys
  rcases paired.sides with ⟨lo, hi⟩ | ⟨lo, hi⟩
  · rw [lo, hi]
    simp
  · rw [lo, hi]
    simp [or_comm]

/-- No offer is matched twice in a pass. -/
theorem matches_from_disjoint {used : List OfferKey} {book : List Offer} :
    (matchesFrom venue ledger era used book).Pairwise
      (fun one other => ∀ key ∈ one.keys, key ∉ other.keys) := by
  induction book generalizing used with
  | nil => exact List.Pairwise.nil
  | cons a rest ih =>
    unfold matchesFrom
    split
    · exact ih
    · split
      · exact ih
      next b desc found =>
        apply List.Pairwise.cons _ ih
        intro other later key mine theirs
        obtain ⟨-, -, matched⟩ := first_match_found found
        obtain ⟨x, -, y, -, xUnused, yUnused, otherMatched⟩ := matches_from_book other later
        have taken : key ∈ a.key :: b.key :: used := by
          rcases (paired_keys (try_match_paired matched) key).mp mine with rfl | rfl
          · exact List.mem_cons_self
          · exact List.mem_cons_of_mem _ List.mem_cons_self
        rcases (paired_keys (try_match_paired otherMatched) key).mp theirs with rfl | rfl
        · exact xUnused taken
        · exact yUnused taken

end Members

end XChainHub.CrossChain.Dex
