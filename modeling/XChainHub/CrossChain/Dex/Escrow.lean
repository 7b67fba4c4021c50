import XChainHub.CrossChain.Dex.Validate

/-!
What one matching pass takes out of escrow: each fill against what its offer has
left in the ledger (dex_engine.js tryOrderMatch, dex/match.js findMatches) and the
ledger after every match of the pass is applied (dex/ledger.js).
-/
namespace XChainHub.CrossChain.Dex
open CanonicalInt Bcmath DecimalRounding

section Books

/- The open books of a pass; an offer is listed once on its own chain. -/
structure OpenBooks where
  byCoin : String → List Offer
  home : ∀ coin, ∀ o ∈ byCoin coin, o.homeCoin = coin
  distinct : ∀ coin, ((byCoin coin).map (fun o => o.actionIndex)).Nodup

def OpenBooks.offers (books : OpenBooks) : List Offer := allowedChains.flatMap books.byCoin

theorem loaded_distinct (venue : Venue) (coin : String) :
    ((loadOfferBook venue coin).map (fun o => o.actionIndex)).Nodup := by
  unfold loadOfferBook
  cases venue.orders coin with
  | none => exact List.nodup_nil
  | some reply =>
    simp only
    split
    · exact List.nodup_nil
    · rw [List.map_map]
      exact List.Nodup.sublist (List.Sublist.map _ List.filter_sublist) reply.distinct

/- The books the matcher really works on. -/
def preparedBooks (venue : Venue) (snapshotBlock : SafeNat) : OpenBooks where
  byCoin := preparedBook venue snapshotBlock
  home := by
    intro coin o listed
    obtain ⟨bare, member, rfl⟩ := List.mem_map.mp listed
    exact (listed_offer_found member).1
  distinct := by
    intro coin
    rw [preparedBook, List.map_map]
    exact loaded_distinct venue coin

theorem same_offer {books : OpenBooks} {a b : Offer} (aListed : a ∈ books.offers)
    (bListed : b ∈ books.offers) (same : a.key = b.key) : a = b := by
  obtain ⟨coin, -, aMember⟩ := List.mem_flatMap.mp aListed
  obtain ⟨coin', -, bMember⟩ := List.mem_flatMap.mp bListed
  obtain ⟨home, index⟩ := Prod.mk.inj same
  rw [books.home coin a aMember, books.home coin' b bMember] at home
  subst home
  exact List.inj_on_of_nodup_map (books.distinct coin) aMember bMember (Subtype.ext index)

end Books

section Fits
variable (ledger : Ledger)

def committedGive (o : Offer) : ℚ := bcnum (committedFor ledger o).give

/- An offer the ledger has not committed past, both amounts on its own grid. -/
structure Backed (o : Offer) (decimals : ℕ) : Prop where
  given : giveDecimals o = some decimals
  giveGrid : OnGrid decimals o.giveValue
  committedGrid : OnGrid decimals (committedGive ledger o)
  committedNonneg : 0 ≤ committedGive ledger o
  committedWithin : committedGive ledger o ≤ o.giveValue

/- And of fewer digits than the arithmetic keeps; a swap is committed whole. -/
structure OfferFits (o : Offer) (decimals : ℕ) : Prop extends Backed ledger o decimals where
  short : o.giveValue * 10 ^ decimals ≤ 10 ^ 61
  swapWhole : o.offerKind = .swap →
    committedGive ledger o = 0 ∨ committedGive ledger o = o.giveValue

/- The rates of a pair that the 64 digits of a price resolve to the maker's unit. -/
def RatesFit (maker taker : Offer) (decimals : ℕ) : Prop :=
  (maker.giveValue + 1) *
    (taker.getValue / taker.giveValue + taker.giveValue / taker.getValue) * 10 ^ decimals ≤ 10 ^ 61

structure BooksFit (books : OpenBooks) : Prop where
  offers : ∀ o ∈ books.offers, ∃ decimals, OfferFits ledger o decimals
  rates : ∀ maker ∈ books.offers, ∀ taker ∈ books.offers, mirrored maker taker →
    ∀ decimals, giveDecimals maker = some decimals → RatesFit maker taker decimals

/- A fill that the leg's escrow covers, in whole units of the leg's grid. -/
structure FillFits (o : Offer) (fill : ℚ) : Prop where
  positive : 0 < fill
  grid : ∃ decimals, giveDecimals o = some decimals ∧ OnGrid decimals fill
  covered : fill ≤ (effectiveRemaining ledger o).give

end Fits

section Remaining
variable {ledger : Ledger} {o : Offer} {decimals : ℕ}

theorem give_decimals_le (found : giveDecimals o = some decimals) : decimals ≤ 18 := by
  unfold giveDecimals at found
  split at found
  · cases found
  next n given =>
    split at found
    next range =>
      cases found
      simp only [Bool.and_eq_true, decide_eq_true_eq] at range
      have whole : ((n.num : ℤ) : ℚ) = n := Rat.den_eq_one_iff n |>.mp range.1.1
      have top : (n.num : ℚ) ≤ 18 := by
        rw [whole]
        exact range.2
      have top' : n.num ≤ 18 := by exact_mod_cast top
      omega
    next => cases found

theorem remaining_exact (fits : OfferFits ledger o decimals) :
    (effectiveRemaining ledger o).give = o.giveValue - committedGive ledger o := by
  have few := give_decimals_le fits.given
  have left : 0 ≤ o.giveValue - committedGive ledger o := by linarith [fits.committedWithin]
  have unit := pow_pos_ten decimals
  have short : |o.giveValue - committedGive ledger o| * 10 ^ decimals < 10 ^ 64 := by
    rw [abs_of_nonneg left]
    have scaled : (o.giveValue - committedGive ledger o) * 10 ^ decimals ≤
        o.giveValue * 10 ^ decimals := by
      apply mul_le_mul_of_nonneg_right _ unit.le
      linarith [fits.committedNonneg]
    have more : (10 : ℚ) ^ 61 < 10 ^ 64 := by norm_num
    linarith [fits.short]
  have exact : bcsub o.giveValue (committedGive ledger o) 64 =
      o.giveValue - committedGive ledger o :=
    formatted_exact (fits.giveGrid.sub fits.committedGrid) (by omega) short
  have shown : (effectiveRemaining ledger o).give =
      if bcsub o.giveValue (committedGive ledger o) 64 < 0 then 0
      else bcsub o.giveValue (committedGive ledger o) 64 := rfl
  rw [shown, exact, if_neg (not_lt.mpr left)]

theorem remaining_grid (fits : OfferFits ledger o decimals) :
    OnGrid decimals (effectiveRemaining ledger o).give := by
  rw [remaining_exact fits]
  exact fits.giveGrid.sub fits.committedGrid

theorem remaining_le_give (fits : OfferFits ledger o decimals) :
    (effectiveRemaining ledger o).give ≤ o.giveValue := by
  rw [remaining_exact fits]
  linarith [fits.committedNonneg]

/-- A rounded amount that was within the remaining give up to a twentieth of a unit. -/
theorem rounded_fill_fits (fits : OfferFits ledger o decimals) {amount : ℚ}
    (pos : 0 < bcround amount decimals)
    (near : amount * 10 ^ decimals ≤ (effectiveRemaining ledger o).give * 10 ^ decimals + 1 / 20) :
    FillFits ledger o (bcround amount decimals) := by
  have unit := pow_pos_ten decimals
  obtain ⟨n, shape⟩ := remaining_grid fits
  have units : (effectiveRemaining ledger o).give * 10 ^ decimals = n := by
    rw [shape]
    field_simp
  have short : (n : ℚ) ≤ 10 ^ 61 := by
    rw [← units]
    have scaled := mul_le_mul_of_nonneg_right (remaining_le_give fits) unit.le
    linarith [fits.short]
  refine ⟨pos, ⟨decimals, fits.given, bcround_on_grid amount decimals⟩, ?_⟩
  rw [shape]
  apply bcround_le (bcround_pos pos).le _ short
  rw [← units]
  exact near

theorem text_fill_fits {fill : ℚ} (fits : FillFits ledger o fill) :
    FillFits ledger o (bcnum (bcstr fill)) := by
  obtain ⟨decimals, given, grid⟩ := fits.grid
  rw [bcnum_bcstr grid fits.positive.le]
  exact fits

end Remaining

section Orders
variable {venue : Venue} {ledger : Ledger} {era : PriceEra}

/- What orderPricing settled about a pair: its prices, and that something is left on each side. -/
structure PricedFrom (ledger : Ledger) (p : Pricing) : Prop where
  mirror : mirrored p.maker p.taker = true
  givePrice : p.takerGivePrice = getPrice p.taker.getValue p.taker.giveValue
  getPrice : p.takerGetPrice = getPrice p.taker.giveValue p.taker.getValue
  takerRem : p.takerRem = effectiveRemaining ledger p.taker
  makerRem : p.makerRem = effectiveRemaining ledger p.maker
  takerLeft : 0 < p.takerRem.give
  makerLeft : 0 < p.makerRem.give
  takerWants : 0 < p.takerRem.get
  makerWants : 0 < p.makerRem.get

theorem priced_pair_cases {maker taker : Offer} {p : Pricing} (mirror : mirrored maker taker = true)
    (priced : pricedPair venue ledger maker taker era = some p) :
    PricedFrom ledger p ∧ p.maker = maker ∧ p.taker = taker := by
  unfold pricedPair at priced
  simp only at priced
  split at priced
  · cases priced
  · split at priced
    · cases priced
    next left =>
      split at priced
      · cases priced
      next wanted =>
        simp only [Bool.or_eq_true, decide_eq_true_eq, not_or, not_le] at left wanted
        cases priced
        exact ⟨⟨mirror, rfl, rfl, rfl, rfl, left.1, left.2, wanted.1, wanted.2⟩, rfl, rfl⟩

theorem order_pricing_cases {a b : Offer} {p : Pricing}
    (priced : orderPricing venue ledger a b era = some p) : PricedFrom ledger p ∧
      if makerIsFirst a b then p.maker = a ∧ p.taker = b else p.maker = b ∧ p.taker = a := by
  unfold orderPricing at priced
  split at priced
  · cases priced
  next mirror =>
    simp only [Bool.not_eq_true', Bool.not_eq_false] at mirror
    split at priced
    next first =>
      rw [if_pos first]
      exact priced_pair_cases mirror priced
    next second =>
      rw [if_neg second]
      exact priced_pair_cases (mirrored_comm a b ▸ mirror) priced

theorem max_give_le (p : Pricing) : p.maxGive ≤ p.takerRem.give := by
  unfold Pricing.maxGive
  split
  next less => exact less.le
  next => exact le_refl _

theorem max_get_le (p : Pricing) : p.maxGet ≤ p.makerRem.give := by
  unfold Pricing.maxGet
  split
  next => exact le_refl _
  next more => exact not_lt.mp more

theorem max_give_pos {p : Pricing} (priced : PricedFrom ledger p) : 0 < p.maxGive := by
  unfold Pricing.maxGive
  split
  · exact priced.makerWants
  · exact priced.takerLeft

theorem max_get_pos {p : Pricing} (priced : PricedFrom ledger p) : 0 < p.maxGet := by
  unfold Pricing.maxGet
  split
  · exact priced.makerLeft
  · exact priced.takerWants

theorem clamp_give_le (p : Pricing) : (clamp p).1 ≤ p.takerRem.give := by
  unfold clamp
  simp only
  split
  next => exact max_give_le p
  next within => exact (not_lt.mp within).trans (max_give_le p)

/-- The taker gets no more than the maker has left, up to a twentieth of the maker's unit. -/
theorem clamp_get_near {p : Pricing} {takerDecimals makerDecimals : ℕ}
    (priced : PricedFrom ledger p) (takerFits : OfferFits ledger p.taker takerDecimals)
    (makerFits : OfferFits ledger p.maker makerDecimals)
    (rates : RatesFit p.maker p.taker makerDecimals) :
    (clamp p).2 * 10 ^ makerDecimals ≤ p.makerRem.give * 10 ^ makerDecimals + 1 / 20 := by
  have unit := pow_pos_ten makerDecimals
  have soldPos := max_give_pos priced
  have boughtPos := max_get_pos priced
  unfold clamp
  simp only
  split
  next worth =>
    have givePos : 0 < p.taker.giveValue := by
      have left := priced.takerLeft
      rw [priced.takerRem] at left
      exact left.trans_le (remaining_le_give takerFits)
    have pricePos : 0 < p.takerGetPrice := by
      by_contra nonpos
      have nothing : bcmul p.maxGet p.takerGetPrice 64 ≤ 0 :=
        formatted_nonpos (mul_nonpos_of_nonneg_of_nonpos boughtPos.le (not_lt.mp nonpos))
      linarith [soldPos.trans worth]
    have getPos : 0 < p.taker.getValue := by
      rw [priced.getPrice, Bcmath.getPrice, bcdiv] at pricePos
      split at pricePos
      · exact absurd pricePos (lt_irrefl 0)
      · exact (div_pos_iff_of_pos_left givePos).mp (formatted_pos pricePos)
    rw [priced.givePrice]
    rw [priced.getPrice] at worth
    apply reciprocal_fill_le givePos getPos soldPos (max_get_le p) boughtPos.le worth
    have capped : p.makerRem.give ≤ p.maker.giveValue := by
      rw [priced.makerRem]
      exact remaining_le_give makerFits
    have ratesPos : 0 < p.taker.getValue / p.taker.giveValue +
        p.taker.giveValue / p.taker.getValue := by positivity
    have smaller : (p.makerRem.give + 1) * (p.taker.getValue / p.taker.giveValue +
        p.taker.giveValue / p.taker.getValue) * 10 ^ makerDecimals ≤
          (p.maker.giveValue + 1) * (p.taker.getValue / p.taker.giveValue +
            p.taker.giveValue / p.taker.getValue) * 10 ^ makerDecimals := by
      apply mul_le_mul_of_nonneg_right _ unit.le
      apply mul_le_mul_of_nonneg_right _ ratesPos.le
      linarith
    exact smaller.trans rates
  next =>
    have scaled := mul_le_mul_of_nonneg_right (max_get_le p) unit.le
    linarith

theorem priced_fill_shape {p : Pricing} {fill : Fill} {takerDecimals makerDecimals : ℕ}
    (taker : giveDecimals p.taker = some takerDecimals)
    (maker : giveDecimals p.maker = some makerDecimals) (filled : pricedFill p = some fill) :
    0 < bcround (clamp p).1 takerDecimals ∧ 0 < bcround (clamp p).2 makerDecimals ∧
      fill = ⟨bcstr (bcround (clamp p).1 takerDecimals),
        bcstr (bcround (clamp p).2 makerDecimals)⟩ := by
  unfold pricedFill quantizeFill at filled
  rw [taker, maker] at filled
  simp only at filled
  by_cases dust : (decide (bcround (clamp p).1 takerDecimals ≤ 0) ||
      decide (bcround (clamp p).2 makerDecimals ≤ 0)) = true
  · rw [if_pos dust] at filled
    cases filled
  · rw [if_neg dust] at filled
    simp only [Bool.or_eq_true, decide_eq_true_eq, not_or, not_le] at dust
    simp only at filled
    split at filled
    · cases filled
    · cases filled
      exact ⟨dust.1, dust.2, rfl⟩

theorem priced_fill_fits {p : Pricing} {fill : Fill} {takerDecimals makerDecimals : ℕ}
    (priced : PricedFrom ledger p) (takerFits : OfferFits ledger p.taker takerDecimals)
    (makerFits : OfferFits ledger p.maker makerDecimals)
    (rates : RatesFit p.maker p.taker makerDecimals) (filled : pricedFill p = some fill) :
    FillFits ledger p.taker (bcnum fill.takerGive) ∧
      FillFits ledger p.maker (bcnum fill.takerGet) := by
  obtain ⟨givePos, getPos, rfl⟩ := priced_fill_shape takerFits.given makerFits.given filled
  constructor
  · apply text_fill_fits
    apply rounded_fill_fits takerFits givePos
    rw [← priced.takerRem]
    have scaled := mul_le_mul_of_nonneg_right (clamp_give_le p) (pow_pos_ten takerDecimals).le
    linarith
  · apply text_fill_fits
    apply rounded_fill_fits makerFits getPos
    rw [← priced.makerRem]
    exact clamp_get_near priced takerFits makerFits rates

theorem build_desc_fills {a b : Offer} {aKind bKind : OfferKind} {aFill bFill : String}
    (aFits : FillFits ledger a (bcnum aFill)) (bFits : FillFits ledger b (bcnum bFill)) :
    FillFits ledger (buildDesc ledger a b aKind bKind aFill bFill).lo
        (bcnum (buildDesc ledger a b aKind bKind aFill bFill).loFill) ∧
      FillFits ledger (buildDesc ledger a b aKind bKind aFill bFill).hi
        (bcnum (buildDesc ledger a b aKind bKind aFill bFill).hiFill) := by
  unfold buildDesc
  split
  · exact ⟨text_fill_fits aFits, text_fill_fits bFits⟩
  · exact ⟨text_fill_fits bFits, text_fill_fits aFits⟩

theorem whole_swap_fits {o : Offer} {decimals : ℕ} (fits : OfferFits ledger o decimals)
    (kind : o.offerKind = .swap) (left : 0 < (effectiveRemaining ledger o).give) :
    FillFits ledger o (bcnum (bcstr o.giveValue)) := by
  apply text_fill_fits
  have remaining := remaining_exact fits
  rw [remaining] at left
  rcases fits.swapWhole kind with none' | all
  · refine ⟨by linarith, ⟨decimals, fits.given, fits.giveGrid⟩, ?_⟩
    rw [remaining, none', sub_zero]
  · rw [all] at left
    linarith

theorem order_fills_fit {a b : Offer} {p : Pricing} {fill : Fill} {books : OpenBooks}
    (fit : BooksFit ledger books) (aListed : a ∈ books.offers) (bListed : b ∈ books.offers)
    (priced : orderPricing venue ledger a b era = some p) (filled : pricedFill p = some fill) :
    FillFits ledger a (bcnum (if makerIsFirst a b then fill.takerGet else fill.takerGive)) ∧
      FillFits ledger b
        (bcnum (if makerIsFirst a b then fill.takerGive else fill.takerGet)) := by
  obtain ⟨aDecimals, aFits⟩ := fit.offers a aListed
  obtain ⟨bDecimals, bFits⟩ := fit.offers b bListed
  obtain ⟨settled, sides⟩ := order_pricing_cases priced
  by_cases first : makerIsFirst a b
  · rw [if_pos first] at sides ⊢
    rw [if_pos first]
    obtain ⟨rfl, rfl⟩ := sides
    have rates := fit.rates _ aListed _ bListed settled.mirror aDecimals aFits.given
    obtain ⟨takerFits, makerFits⟩ := priced_fill_fits settled bFits aFits rates filled
    exact ⟨makerFits, takerFits⟩
  · rw [if_neg first] at sides ⊢
    rw [if_neg first]
    obtain ⟨rfl, rfl⟩ := sides
    have rates := fit.rates _ bListed _ aListed settled.mirror bDecimals bFits.given
    exact priced_fill_fits settled aFits bFits rates filled

theorem match_fills_fit {a b : Offer} {desc : Descriptor} {books : OpenBooks}
    (fit : BooksFit ledger books) (aListed : a ∈ books.offers) (bListed : b ∈ books.offers)
    (matched : tryMatch venue ledger a b era = some desc) :
    FillFits ledger desc.lo (bcnum desc.loFill) ∧ FillFits ledger desc.hi (bcnum desc.hiFill) := by
  rcases (try_match_cases matched).kind with swap | ⟨p, fill, order⟩
  · obtain ⟨aDecimals, aFits⟩ := fit.offers a aListed
    obtain ⟨bDecimals, bFits⟩ := fit.offers b bListed
    rw [swap.built]
    apply build_desc_fills
    · exact whole_swap_fits aFits swap.kinds.1 swap.aLeft
    · exact whole_swap_fits bFits swap.kinds.2 swap.bLeft
  · obtain ⟨aFits, bFits⟩ := order_fills_fit fit aListed bListed order.priced order.filled
    rw [order.built]
    exact build_desc_fills aFits bFits

end Orders

section Applied
variable {venue : Venue} {ledger : Ledger} {era : PriceEra}

def Descriptor.loLeg (desc : Descriptor) : FillLeg :=
  ⟨desc.lo.homeCoin, desc.lo.actionIndex.val, desc.loFill⟩

def Descriptor.hiLeg (desc : Descriptor) : FillLeg :=
  ⟨desc.hi.homeCoin, desc.hi.actionIndex.val, desc.hiFill⟩

/- Every match of a pass finalized. -/
def applyMatches (ledger : Ledger) (descs : List Descriptor) : Ledger :=
  descs.foldl (fun current desc => applyCommit current desc.loLeg desc.hiLeg 1) ledger

theorem apply_commit_other {a b : FillLeg} {sign : ℤ} {key : OfferKey} (notA : key ≠ a.key)
    (notB : key ≠ b.key) : (applyCommit ledger a b sign).at key = ledger.at key := by
  unfold applyCommit Ledger.at
  rw [OrderedMap.get_set_other notB, OrderedMap.get_set_other notA]

theorem apply_commit_sides {l : Ledger} {a b : FillLeg} {s : ℤ} (apart : a.key ≠ b.key) :
    (applyCommit l a b s).at a.key = (l.at a.key).apply s a.amount b.amount ∧
      (applyCommit l a b s).at b.key = (l.at b.key).apply s b.amount a.amount := by
  unfold applyCommit Ledger.at
  rw [OrderedMap.get_set_other apart, OrderedMap.get_set_same, OrderedMap.get_set_same]
  exact ⟨rfl, rfl⟩

theorem apply_matches_other {descs : List Descriptor} {key : OfferKey}
    (untouched : ∀ desc ∈ descs, key ∉ desc.keys) :
    (applyMatches ledger descs).at key = ledger.at key := by
  induction descs generalizing ledger with
  | nil => rfl
  | cons desc rest ih =>
    have apart := untouched desc List.mem_cons_self
    simp only [Descriptor.keys, List.mem_cons, List.not_mem_nil, or_false, not_or] at apart
    have later : (applyMatches (applyCommit ledger desc.loLeg desc.hiLeg 1) rest).at key =
        (applyCommit ledger desc.loLeg desc.hiLeg 1).at key :=
      ih (fun other member => untouched other (List.mem_cons_of_mem desc member))
    exact later.trans (apply_commit_other apart.1 apart.2)

/-- The offers of a descriptor gain its two fills, once. -/
theorem apply_matches_once (ledger : Ledger) {descs : List Descriptor} {desc : Descriptor}
    (disjoint : descs.Pairwise (fun one other => ∀ key ∈ one.keys, key ∉ other.keys))
    (listed : desc ∈ descs) (sides : desc.lo.key ≠ desc.hi.key) :
    (applyMatches ledger descs).at desc.lo.key =
        (ledger.at desc.lo.key).apply 1 desc.loFill desc.hiFill ∧
      (applyMatches ledger descs).at desc.hi.key =
        (ledger.at desc.hi.key).apply 1 desc.hiFill desc.loFill := by
  induction descs generalizing ledger with
  | nil => cases listed
  | cons first rest ih =>
    obtain ⟨apart, restDisjoint⟩ := List.pairwise_cons.mp disjoint
    have loMine : desc.lo.key ∈ desc.keys := List.mem_cons_self
    have hiMine : desc.hi.key ∈ desc.keys := List.mem_cons_of_mem _ List.mem_cons_self
    cases listed with
    | head =>
      have touch : desc.loLeg.key ≠ desc.hiLeg.key := sides
      have applied := apply_commit_sides (l := ledger) (s := 1) touch
      constructor
      · have untouched : ∀ other ∈ rest, desc.lo.key ∉ other.keys := fun other member =>
          apart other member desc.lo.key loMine
        exact (apply_matches_other untouched).trans applied.1
      · have untouched : ∀ other ∈ rest, desc.hi.key ∉ other.keys := fun other member =>
          apart other member desc.hi.key hiMine
        exact (apply_matches_other untouched).trans applied.2
    | tail _ member =>
      have fresh : ∀ key ∈ desc.keys, key ≠ first.lo.key ∧ key ≠ first.hi.key := by
        intro key mine
        constructor
        · rintro rfl
          exact apart desc member _ List.mem_cons_self mine
        · rintro rfl
          exact apart desc member _ (List.mem_cons_of_mem _ List.mem_cons_self) mine
      have kept : ∀ key ∈ desc.keys, (applyCommit ledger first.loLeg first.hiLeg 1).at key =
          ledger.at key := fun key mine => apply_commit_other (fresh key mine).1 (fresh key mine).2
      rw [← kept _ loMine, ← kept _ hiMine]
      exact ih _ restDisjoint member

theorem committed_after_fill {o : Offer} {decimals : ℕ} {give get : String}
    (fits : OfferFits ledger o decimals) (fill : FillFits ledger o (bcnum give)) :
    bcnum ((ledger.at o.key).apply 1 give get).give = committedGive ledger o + bcnum give := by
  have few := give_decimals_le fits.given
  obtain ⟨decimals', given, grid⟩ := fill.grid
  cases (fits.given.symm.trans given)
  have sumGrid := fits.committedGrid.add grid
  have sumNonneg : 0 ≤ committedGive ledger o + bcnum give := by
    linarith [fits.committedNonneg, fill.positive]
  have within : committedGive ledger o + bcnum give ≤ o.giveValue := by
    have covered := fill.covered
    rw [remaining_exact fits] at covered
    linarith
  have short : |committedGive ledger o + bcnum give| * 10 ^ decimals < 10 ^ 64 := by
    rw [abs_of_nonneg sumNonneg]
    have scaled := mul_le_mul_of_nonneg_right within (pow_pos_ten decimals).le
    have more : (10 : ℚ) ^ 61 < 10 ^ 64 := by norm_num
    linarith [fits.short]
  have exact : bcadd (committedGive ledger o) (bcnum give) 64 =
      committedGive ledger o + bcnum give := formatted_exact sumGrid (by omega) short
  have shown : ((ledger.at o.key).apply 1 give get).give =
      bcstr (bcadd (committedGive ledger o) (bcnum give) 64) := rfl
  rw [shown, exact, bcnum_bcstr sumGrid sumNonneg]

theorem filled_offer_within {o : Offer} {give get : String} {books : OpenBooks}
    (fit : BooksFit ledger books) (listed : o ∈ books.offers)
    (fill : FillFits ledger o (bcnum give)) :
    bcnum ((ledger.at o.key).apply 1 give get).give ≤ o.giveValue := by
  obtain ⟨decimals, fits⟩ := fit.offers o listed
  have covered := fill.covered
  rw [remaining_exact fits] at covered
  rw [committed_after_fill fits fill]
  linarith

/-- After a pass of disjoint fills that fit, no offer is committed past its amount. -/
theorem applied_pass_within {books : OpenBooks} {descs : List Descriptor}
    (fit : BooksFit ledger books)
    (listed : ∀ desc ∈ descs, desc.lo ∈ books.offers ∧ desc.hi ∈ books.offers ∧
      desc.lo.homeCoin ≠ desc.hi.homeCoin)
    (fills : ∀ desc ∈ descs, FillFits ledger desc.lo (bcnum desc.loFill) ∧
      FillFits ledger desc.hi (bcnum desc.hiFill))
    (disjoint : descs.Pairwise (fun one other => ∀ key ∈ one.keys, key ∉ other.keys)) :
    ∀ o ∈ books.offers, committedGive (applyMatches ledger descs) o ≤ o.giveValue := by
  intro o open'
  unfold committedGive committedFor
  by_cases touched : ∃ desc ∈ descs, o.key ∈ desc.keys
  · obtain ⟨desc, member, mine⟩ := touched
    obtain ⟨loListed, hiListed, coins⟩ := listed desc member
    have apart : desc.lo.key ≠ desc.hi.key := fun same => coins (congrArg Prod.fst same)
    obtain ⟨loAfter, hiAfter⟩ := apply_matches_once ledger disjoint member apart
    simp only [Descriptor.keys, List.mem_cons, List.not_mem_nil, or_false] at mine
    rcases mine with lo | hi
    · rw [lo, loAfter, same_offer open' loListed lo]
      exact filled_offer_within fit loListed (fills desc member).1
    · rw [hi, hiAfter, same_offer open' hiListed hi]
      exact filled_offer_within fit hiListed (fills desc member).2
  · have untouched : ∀ desc ∈ descs, o.key ∉ desc.keys := fun desc member mine =>
      touched ⟨desc, member, mine⟩
    obtain ⟨decimals, fits⟩ := fit.offers o open'
    rw [apply_matches_other untouched]
    exact fits.committedWithin

end Applied

section Pass
variable (venue : Venue) (ledger : Ledger) (books : OpenBooks) (era : PriceEra)

/- What one pass promises of the escrow. -/
structure NeverOvercommits : Prop where
  fills : ∀ desc ∈ findMatches venue ledger books.byCoin era,
    FillFits ledger desc.lo (bcnum desc.loFill) ∧ FillFits ledger desc.hi (bcnum desc.hiFill)
  disjoint : (findMatches venue ledger books.byCoin era).Pairwise
    (fun one other => ∀ key ∈ one.keys, key ∉ other.keys)
  within : ∀ o ∈ books.offers,
    committedGive (applyMatches ledger (findMatches venue ledger books.byCoin era)) o ≤ o.giveValue

/-- With swaps committed whole and amounts and rates of modest size, no fill is more than its
    offer has left, no offer is filled twice, and no offer ends up committed past its amount. -/
theorem escrow_never_overcommitted (fit : BooksFit ledger books) :
    NeverOvercommits venue ledger books era := by
  have fills : ∀ desc ∈ findMatches venue ledger books.byCoin era,
      FillFits ledger desc.lo (bcnum desc.loFill) ∧
        FillFits ledger desc.hi (bcnum desc.hiFill) := by
    intro desc matched
    obtain ⟨a, aListed, b, bListed, -, -, paired⟩ := matches_from_book desc matched
    exact match_fills_fit fit aListed bListed paired
  have listed : ∀ desc ∈ findMatches venue ledger books.byCoin era, desc.lo ∈ books.offers ∧
      desc.hi ∈ books.offers ∧ desc.lo.homeCoin ≠ desc.hi.homeCoin := by
    intro desc matched
    obtain ⟨a, aListed, b, bListed, -, -, paired⟩ := matches_from_book desc matched
    have apart := (try_match_paired (match_rederived paired)).apart
    rcases (try_match_paired paired).sides with ⟨lo, hi⟩ | ⟨lo, hi⟩
    · exact ⟨lo ▸ aListed, hi ▸ bListed, apart⟩
    · exact ⟨lo ▸ bListed, hi ▸ aListed, apart⟩
  exact ⟨fills, matches_from_disjoint, applied_pass_within fit listed fills matches_from_disjoint⟩

section Sample

def sampleOffer (coin : String) (o : Order) : Offer :=
  { o with homeCoin := coin, homeNetwork := "mainnet", homeBlock := some 900, lists := none }

def pairBooks (btc ltc : Order) : OpenBooks where
  byCoin := fun coin => if coin = "BTC" then [sampleOffer "BTC" btc]
    else if coin = "LTC" then [sampleOffer "LTC" ltc] else []
  home := by
    intro coin o listed
    by_cases btcCoin : coin = "BTC"
    · rw [if_pos btcCoin, List.mem_singleton] at listed
      rw [listed, btcCoin, sampleOffer]
    · by_cases ltcCoin : coin = "LTC"
      · rw [if_neg btcCoin, if_pos ltcCoin, List.mem_singleton] at listed
        rw [listed, ltcCoin, sampleOffer]
      · rw [if_neg btcCoin, if_neg ltcCoin] at listed
        cases listed
  distinct := by
    intro coin
    split
    · exact List.nodup_singleton _
    · split
      · exact List.nodup_singleton _
      · exact List.nodup_nil

theorem pair_books_offers (btc ltc : Order) : (pairBooks btc ltc).offers =
    [sampleOffer "BTC" btc, sampleOffer "LTC" ltc] := rfl

def pairLedger (btc ltc : Committed) : Ledger :=
  (OrderedMap.empty.set ("BTC", 7) btc).set ("LTC", 7) ltc

def swapOrder (giveCoin getCoin give get : String) : Order :=
  { sampleOrder giveCoin getCoin give get with kind := some "swap" }

def fineOrder (giveCoin getCoin give get : String) : Order :=
  { sampleOrder giveCoin getCoin give get with giveDecimals := some 18 }

/- A swap half committed, whose full fill is more than the rest. -/
def halfSwap : Order := swapOrder "BTC" "LTC" "2" "150"

def otherSwap : Order := swapOrder "LTC" "BTC" "150" "2"

def halfLedger : Ledger := pairLedger ⟨"1", "75"⟩ ⟨"75", "1"⟩

/- A taker with one unit left, at a rate that its price of 64 places does not resolve. -/
def dustMaker : Order := fineOrder "BTC" "LTC" "666666666666669" "0.000000000000000002"

def dustTaker : Order :=
  fineOrder "LTC" "BTC" "0.000000000000000003" "1000000000000002.000000000000000002"

def dustLedger : Ledger :=
  pairLedger ⟨"333333333333335", "0.000000000000000001"⟩
    ⟨"0.000000000000000002", "666666666666668"⟩

theorem half_swap_backed : ∀ o ∈ (pairBooks halfSwap otherSwap).offers,
    ∃ decimals, Backed halfLedger o decimals := by
  rw [pair_books_offers]
  intro o listed
  simp only [List.mem_cons, List.not_mem_nil, or_false] at listed
  rcases listed with rfl | rfl
  · exact ⟨8, by decide, ⟨200000000, by decide +kernel⟩, ⟨100000000, by decide +kernel⟩,
      by decide, by decide⟩
  · exact ⟨8, by decide, ⟨15000000000, by decide +kernel⟩, ⟨7500000000, by decide +kernel⟩,
      by decide, by decide⟩

theorem dust_backed : ∀ o ∈ (pairBooks dustMaker dustTaker).offers,
    ∃ decimals, Backed dustLedger o decimals := by
  rw [pair_books_offers]
  intro o listed
  simp only [List.mem_cons, List.not_mem_nil, or_false] at listed
  rcases listed with rfl | rfl
  · exact ⟨18, by decide, ⟨666666666666669 * 10 ^ 18, by decide +kernel⟩,
      ⟨333333333333335 * 10 ^ 18, by decide +kernel⟩, by decide +kernel, by decide +kernel⟩
  · exact ⟨18, by decide, ⟨3, by decide +kernel⟩, ⟨2, by decide +kernel⟩, by decide +kernel,
      by decide +kernel⟩

/- On the grid and within the amounts is not enough: neither of a partly committed swap nor
   of an order whose rate is out of the price's precision. -/
theorem backed_books_overcommit :
    ((∀ o ∈ (pairBooks halfSwap otherSwap).offers, ∃ decimals, Backed halfLedger o decimals) ∧
      ¬ NeverOvercommits sampleVenue halfLedger (pairBooks halfSwap otherSwap) (.block 800)) ∧
    (∀ o ∈ (pairBooks dustMaker dustTaker).offers, ∃ decimals, Backed dustLedger o decimals) ∧
      ¬ NeverOvercommits sampleVenue dustLedger (pairBooks dustMaker dustTaker) (.block 800) := by
  refine ⟨⟨half_swap_backed, ?_⟩, dust_backed, ?_⟩
  · intro never
    have within := never.within (sampleOffer "BTC" halfSwap) List.mem_cons_self
    exact absurd within (by decide +kernel)
  · intro never
    have within := never.within (sampleOffer "BTC" dustMaker) List.mem_cons_self
    exact absurd within (by decide +kernel)

def firmMaker : Order := sampleOrder "BTC" "LTC" "2" "150.5"

def firmTaker : Order := sampleOrder "LTC" "BTC" "60" "0.7"

def firmLedger : Ledger := pairLedger ⟨"0.5", "37.625"⟩ ⟨"0", "0"⟩

theorem firm_books_fit : BooksFit firmLedger (pairBooks firmMaker firmTaker) := by
  constructor
  · rw [pair_books_offers]
    intro o listed
    simp only [List.mem_cons, List.not_mem_nil, or_false] at listed
    rcases listed with rfl | rfl
    · exact ⟨8, ⟨by decide, ⟨200000000, by decide +kernel⟩, ⟨50000000, by decide +kernel⟩,
        by decide +kernel, by decide +kernel⟩, by decide +kernel, by decide⟩
    · exact ⟨8, ⟨by decide, ⟨6000000000, by decide +kernel⟩, ⟨0, by decide +kernel⟩,
        by decide +kernel, by decide +kernel⟩, by decide +kernel, by decide⟩
  · rw [pair_books_offers]
    intro maker makerListed taker takerListed _ decimals given
    simp only [List.mem_cons, List.not_mem_nil, or_false] at makerListed takerListed
    rcases makerListed with rfl | rfl
    all_goals
      rcases takerListed with rfl | rfl
      all_goals
        cases given
        unfold RatesFit
        decide +kernel

/- The books of a partial fill, over an order already half a coin committed. -/
theorem firm_books_never_overcommit :
    NeverOvercommits sampleVenue firmLedger (pairBooks firmMaker firmTaker) (.block 800) :=
  escrow_never_overcommitted sampleVenue firmLedger (pairBooks firmMaker firmTaker) (.block 800)
    firm_books_fit

end Sample

end Pass

end XChainHub.CrossChain.Dex
