import XChainHub.CrossChain.Dex.Escrow
import XChainHub.Lib.Bcmath.Nearest

/-!
The limit prices of an ORDER match: the clamp of dex_engine.js fills on the
taker's own price, and price_cross.js lets a pair through when that price is no
worse than the maker's. Both compare prices of 64 digits.
-/
namespace XChainHub.CrossChain.Dex
open CanonicalInt Bcmath DecimalRounding

section Promise

def makerOf (a b : Offer) : Offer := if makerIsFirst a b then a else b

def takerOf (a b : Offer) : Offer := if makerIsFirst a b then b else a

/- Exact amounts on which neither side does worse than its limit, each fill within half a
   unit of its leg's grid of one of them. -/
def LimitsHonoured (maker taker : Offer) (takerGive takerGet : ℚ) : Prop :=
  ∃ g t, 0 < g ∧ 0 < t ∧
    taker.getValue / taker.giveValue ≤ t / g ∧ maker.getValue / maker.giveValue ≤ g / t ∧
    ∃ takerDecimals makerDecimals,
      giveDecimals taker = some takerDecimals ∧ giveDecimals maker = some makerDecimals ∧
      |takerGive - g| ≤ 1 / 2 / 10 ^ takerDecimals ∧ |takerGet - t| ≤ 1 / 2 / 10 ^ makerDecimals

/- And of a descriptor, whichever side its coin put first. -/
def Descriptor.Honours (desc : Descriptor) (maker taker : Offer) : Prop :=
  (desc.lo = taker ∧ desc.hi = maker ∧
    LimitsHonoured maker taker (bcnum desc.loFill) (bcnum desc.hiFill)) ∨
  desc.lo = maker ∧ desc.hi = taker ∧
    LimitsHonoured maker taker (bcnum desc.hiFill) (bcnum desc.loFill)

/- An order of fewer than 10 ^ 31 units, what is committed of it included, on a grid as fine
   as the one it gives on. -/
structure Resolved (ledger : Ledger) (places : ℕ) (o : Offer) : Prop where
  giveGrid : OnGrid places o.giveValue
  getGrid : OnGrid places o.getValue
  giveShort : o.giveValue * 10 ^ places < unitBound
  getShort : o.getValue * 10 ^ places < unitBound
  committedGive : OnGrid places (bcnum (committedFor ledger o).give) ∧
    0 ≤ bcnum (committedFor ledger o).give
  committedGet : OnGrid places (bcnum (committedFor ledger o).get) ∧
    0 ≤ bcnum (committedFor ledger o).get
  fine : ∀ decimals, giveDecimals o = some decimals → decimals ≤ places

end Promise

section Units
variable {venue : Venue} {ledger : Ledger} {era : PriceEra} {places : ℕ}

/-- What is left of an amount is a count of the same units. -/
theorem left_units {amount committed : ℚ} (few : places ≤ 18) (grid : OnGrid places amount)
    (short : amount * 10 ^ places < unitBound)
    (spent : OnGrid places committed ∧ 0 ≤ committed)
    (left : 0 < if bcsub amount committed 64 < 0 then 0 else bcsub amount committed 64) :
    (∃ n, Units places amount n) ∧
      ∃ n, Units places (if bcsub amount committed 64 < 0 then 0 else bcsub amount committed 64) n := by
  have unit := pow_pos_ten places
  split at left
  · exact absurd left (lt_irrefl 0)
  next nonneg =>
    have more : 0 < amount - committed := formatted_pos left
    have less : (amount - committed) * 10 ^ places < unitBound := by
      have scaled := mul_le_mul_of_nonneg_right (sub_le_self amount spent.2) unit.le
      linarith
    have digits : |amount - committed| * 10 ^ places < 10 ^ 64 := by
      rw [abs_of_pos more]
      have wide : unitBound < 10 ^ 64 := by
        unfold unitBound
        norm_num
      linarith
    have exact : bcsub amount committed 64 = amount - committed :=
      formatted_exact (grid.sub spent.1) (by omega) digits
    rw [if_neg nonneg, exact]
    exact ⟨units_of grid (by linarith [spent.2]) short, units_of (grid.sub spent.1) more less⟩

theorem give_units {o : Offer} (few : places ≤ 18) (resolved : Resolved ledger places o)
    (left : 0 < (effectiveRemaining ledger o).give) :
    (∃ n, Units places o.giveValue n) ∧ ∃ n, Units places (effectiveRemaining ledger o).give n :=
  left_units few resolved.giveGrid resolved.giveShort resolved.committedGive left

theorem get_units {o : Offer} (few : places ≤ 18) (resolved : Resolved ledger places o)
    (left : 0 < (effectiveRemaining ledger o).get) :
    (∃ n, Units places o.getValue n) ∧ ∃ n, Units places (effectiveRemaining ledger o).get n :=
  left_units few resolved.getGrid resolved.getShort resolved.committedGet left

/-- The clamp fills on the taker's price, up to the rounding of each leg. -/
theorem clamp_on_price {p : Pricing} {takerDecimals makerDecimals : ℕ} (few : places ≤ 18)
    (priced : PricedFrom ledger p) (makerResolved : Resolved ledger places p.maker)
    (takerResolved : Resolved ledger places p.taker)
    (taker : giveDecimals p.taker = some takerDecimals)
    (maker : giveDecimals p.maker = some makerDecimals) :
    ∃ g t, 0 < g ∧ 0 < t ∧ t / g = p.taker.getValue / p.taker.giveValue ∧
      |bcround (clamp p).1 takerDecimals - g| ≤ 1 / 2 / 10 ^ takerDecimals ∧
      |bcround (clamp p).2 makerDecimals - t| ≤ 1 / 2 / 10 ^ makerDecimals := by
  have takerLeft := priced.takerLeft
  have makerLeft := priced.makerLeft
  have takerWants := priced.takerWants
  have makerWants := priced.makerWants
  rw [priced.takerRem] at takerLeft takerWants
  rw [priced.makerRem] at makerLeft makerWants
  obtain ⟨⟨_, give⟩, _, takerGive⟩ := give_units few takerResolved takerLeft
  obtain ⟨⟨_, get⟩, _, takerGet⟩ := get_units few takerResolved takerWants
  obtain ⟨-, _, makerGive⟩ := give_units few makerResolved makerLeft
  obtain ⟨-, _, makerGet⟩ := get_units few makerResolved makerWants
  have takerCoarser := takerResolved.fine _ taker
  have makerCoarser := makerResolved.fine _ maker
  have sold : ∃ n, Units places p.maxGive n := by
    unfold Pricing.maxGive
    rw [priced.takerRem, priced.makerRem]
    split
    · exact ⟨_, makerGet⟩
    · exact ⟨_, takerGive⟩
  have bought : ∃ n, Units places p.maxGet n := by
    unfold Pricing.maxGet
    rw [priced.takerRem, priced.makerRem]
    split
    · exact ⟨_, makerGive⟩
    · exact ⟨_, takerGet⟩
  obtain ⟨_, sold⟩ := sold
  obtain ⟨_, bought⟩ := bought
  have givePos := give.pos
  have getPos := get.pos
  have soldPos := sold.pos
  have boughtPos := bought.pos
  unfold clamp
  dsimp only
  split
  · refine ⟨p.maxGive, p.maxGive * (p.taker.getValue / p.taker.giveValue), soldPos,
      by positivity, by field_simp, amount_nearest sold takerCoarser few, ?_⟩
    rw [priced.givePrice]
    exact converted_nearest sold get give makerCoarser few
  · refine ⟨p.maxGet * (p.taker.giveValue / p.taker.getValue), p.maxGet, by positivity,
      boughtPos, by field_simp, ?_, amount_nearest bought makerCoarser few⟩
    rw [priced.getPrice]
    exact converted_nearest bought give get takerCoarser few

theorem priced_pair_crosses {maker taker : Offer} {p : Pricing}
    (priced : pricedPair venue ledger maker taker era = some p) :
    pricesCross venue maker.homeNetwork era (getPrice maker.giveValue maker.getValue)
      (getPrice taker.getValue taker.giveValue) = true := by
  unfold pricedPair at priced
  dsimp only at priced
  split at priced
  · cases priced
  next crosses =>
    rw [Bool.not_eq_true', Bool.not_eq_false] at crosses
    exact crosses

/-- The maker and the taker that a pricing settled on, and the cross of their prices. -/
theorem order_pricing_crosses {a b : Offer} {p : Pricing}
    (priced : orderPricing venue ledger a b era = some p) :
    p.maker = makerOf a b ∧ p.taker = takerOf a b ∧
      pricesCross venue (makerOf a b).homeNetwork era
        (getPrice (makerOf a b).giveValue (makerOf a b).getValue)
        (getPrice (takerOf a b).getValue (takerOf a b).giveValue) = true := by
  have sides := (order_pricing_cases priced).2
  unfold makerOf takerOf
  unfold orderPricing at priced
  split at priced
  · cases priced
  · split at priced
    next first =>
      rw [if_pos first] at sides
      simp only [if_pos first]
      exact ⟨sides.1, sides.2, priced_pair_crosses priced⟩
    next second =>
      rw [if_neg second] at sides
      simp only [if_neg second]
      exact ⟨sides.1, sides.2, priced_pair_crosses priced⟩

theorem cross_active {network : String} {block makerGetPrice takerGivePrice : ℚ}
    (active : venue.priceCross network block = true)
    (crosses : pricesCross venue network (.block block) makerGetPrice takerGivePrice = true) :
    takerGivePrice ≤ makerGetPrice := by
  simp only [pricesCross, if_pos active, Bool.not_eq_true', decide_eq_false_iff_not] at crosses
  exact not_lt.mp crosses

end Units

section Orders
variable {venue : Venue} {ledger : Ledger} {places : ℕ}

theorem priced_fill_decimals {p : Pricing} {fill : Fill} (filled : pricedFill p = some fill) :
    ∃ takerDecimals makerDecimals, giveDecimals p.taker = some takerDecimals ∧
      giveDecimals p.maker = some makerDecimals := by
  unfold pricedFill quantizeFill at filled
  split at filled
  · cases filled
  next quantized =>
    split at quantized
    next takerDecimals makerDecimals taker maker =>
      exact ⟨takerDecimals, makerDecimals, taker, maker⟩
    · cases quantized

theorem rounded_text {q : ℚ} {decimals : ℕ} (pos : 0 < bcround q decimals) :
    bcnum (bcstr (bcnum (bcstr (bcround q decimals)))) = bcround q decimals := by
  have grid := bcround_on_grid q decimals
  rw [bcnum_bcstr grid pos.le, bcnum_bcstr grid pos.le]

/-- The fills a pricing quantizes to honour the limits of its two sides. -/
theorem priced_fill_honoured {p : Pricing} {fill : Fill} (few : places ≤ 18)
    (priced : PricedFrom ledger p) (makerResolved : Resolved ledger places p.maker)
    (takerResolved : Resolved ledger places p.taker)
    (crosses : getPrice p.taker.getValue p.taker.giveValue ≤
      getPrice p.maker.giveValue p.maker.getValue)
    (filled : pricedFill p = some fill) :
    LimitsHonoured p.maker p.taker (bcnum (bcstr (bcnum fill.takerGive)))
      (bcnum (bcstr (bcnum fill.takerGet))) := by
  obtain ⟨takerDecimals, makerDecimals, taker, maker⟩ := priced_fill_decimals filled
  obtain ⟨givePos, getPos, rfl⟩ := priced_fill_shape taker maker filled
  obtain ⟨g, t, gPos, tPos, rate, give, get⟩ :=
    clamp_on_price few priced makerResolved takerResolved taker maker
  have takerLeft := priced.takerLeft
  have makerLeft := priced.makerLeft
  have takerWants := priced.takerWants
  have makerWants := priced.makerWants
  rw [priced.takerRem] at takerLeft takerWants
  rw [priced.makerRem] at makerLeft makerWants
  obtain ⟨⟨_, takerGive⟩, -⟩ := give_units few takerResolved takerLeft
  obtain ⟨⟨_, takerGet⟩, -⟩ := get_units few takerResolved takerWants
  obtain ⟨⟨_, makerGive⟩, -⟩ := give_units few makerResolved makerLeft
  obtain ⟨⟨_, makerGet⟩, -⟩ := get_units few makerResolved makerWants
  have within := ratio_le_of_price_le takerGet takerGive makerGive makerGet crosses
  refine ⟨g, t, gPos, tPos, rate.ge, ?_, takerDecimals, makerDecimals, taker, maker, ?_, ?_⟩
  · rw [← rate] at within
    have turned := one_div_le_one_div_of_le (div_pos tPos gPos) within
    rwa [one_div_div, one_div_div] at turned
  · rw [rounded_text givePos]
    exact give
  · rw [rounded_text getPos]
    exact get

/-- A matched pair of orders is filled at prices no worse than either limit, up to half a unit
    of each leg, while the prices' digits resolve the amounts. -/
theorem limits_honoured {a b : Offer} {block : ℚ} {desc : Descriptor}
    (active : venue.priceCross (makerOf a b).homeNetwork block = true) (few : places ≤ 18)
    (aResolved : Resolved ledger places a) (bResolved : Resolved ledger places b)
    (matched : tryOrderMatch venue ledger a b (.block block) = some desc) :
    desc.Honours (makerOf a b) (takerOf a b) := by
  unfold tryOrderMatch at matched
  split at matched
  · cases matched
  next p priced =>
    split at matched
    · cases matched
    next fill filled =>
      cases matched
      obtain ⟨maker, taker, crosses⟩ := order_pricing_crosses priced
      have settled := (order_pricing_cases priced).1
      have resolved : Resolved ledger places (makerOf a b) ∧
          Resolved ledger places (takerOf a b) := by
        unfold makerOf takerOf
        split
        · exact ⟨aResolved, bResolved⟩
        · exact ⟨bResolved, aResolved⟩
      rw [← maker, ← taker] at resolved crosses ⊢
      rw [← maker] at active
      have honoured := priced_fill_honoured few settled resolved.1 resolved.2
        (cross_active active crosses) filled
      unfold Descriptor.Honours buildDesc
      unfold makerOf at maker
      unfold takerOf at taker
      split
      · split at maker
        next first =>
          rw [if_pos first] at taker ⊢
          rw [if_pos first]
          exact Or.inr ⟨maker.symm, taker.symm, honoured⟩
        next second =>
          rw [if_neg second] at taker ⊢
          rw [if_neg second]
          exact Or.inl ⟨taker.symm, maker.symm, honoured⟩
      · split at maker
        next first =>
          rw [if_pos first] at taker ⊢
          rw [if_pos first]
          exact Or.inl ⟨taker.symm, maker.symm, honoured⟩
        next second =>
          rw [if_neg second] at taker ⊢
          rw [if_neg second]
          exact Or.inr ⟨maker.symm, taker.symm, honoured⟩

/-- A pair that honours both limits has limits that meet. -/
theorem honoured_limits_meet {maker taker : Offer} {takerGive takerGet : ℚ}
    (honoured : LimitsHonoured maker taker takerGive takerGet)
    (wants : 0 ≤ maker.getValue / maker.giveValue) :
    taker.getValue / taker.giveValue * (maker.getValue / maker.giveValue) ≤ 1 := by
  obtain ⟨g, t, gPos, tPos, ask, bid, -⟩ := honoured
  calc taker.getValue / taker.giveValue * (maker.getValue / maker.giveValue)
      ≤ t / g * (g / t) := mul_le_mul ask bid wants (div_pos tPos gPos).le
    _ = 1 := by field_simp

section Sample

/- The two sides of a partial fill, of which the maker is a quarter committed. -/
def firmBid : Offer := sampleOffer "BTC" firmMaker

def firmAsk : Offer := sampleOffer "LTC" firmTaker

theorem firm_resolved : Resolved firmLedger 8 firmBid ∧ Resolved firmLedger 8 firmAsk := by
  constructor
  · exact ⟨⟨200000000, by decide +kernel⟩, ⟨15050000000, by decide +kernel⟩, by decide +kernel,
      by decide +kernel, ⟨⟨50000000, by decide +kernel⟩, by decide +kernel⟩,
      ⟨⟨3762500000, by decide +kernel⟩, by decide +kernel⟩, by rintro _ ⟨⟩; decide⟩
  · exact ⟨⟨6000000000, by decide +kernel⟩, ⟨70000000, by decide +kernel⟩, by decide +kernel,
      by decide +kernel, ⟨⟨0, by decide +kernel⟩, by decide +kernel⟩,
      ⟨⟨0, by decide +kernel⟩, by decide +kernel⟩, by rintro _ ⟨⟩; decide⟩

theorem firm_limits_honoured : ∃ desc,
    tryOrderMatch sampleVenue firmLedger firmBid firmAsk (.block 800) = some desc ∧
      desc.Honours (makerOf firmBid firmAsk) (takerOf firmBid firmAsk) := by
  obtain ⟨desc, matched⟩ := Option.isSome_iff_exists.mp (show
    (tryOrderMatch sampleVenue firmLedger firmBid firmAsk (.block 800)).isSome by decide +kernel)
  exact ⟨desc, matched,
    limits_honoured rfl (by decide) firm_resolved.1 firm_resolved.2 matched⟩

/- Limits that miss each other by less than a unit in the 64th digit of their prices. -/
def wideBid : Offer :=
  sampleOffer "BTC"
    (sampleOrder "BTC" "LTC" "100000000000000000000000000000002"
      "100000000000000000000000000000001")

def wideAsk : Offer :=
  sampleOffer "LTC"
    (sampleOrder "LTC" "BTC" "100000000000000000000000000000000"
      "100000000000000000000000000000001")

/- The prices round to one number and the pair fills, on no amounts that honour both. -/
theorem unresolved_limits_filled : wideBid.offerKind = .order ∧ wideAsk.offerKind = .order ∧
    sampleVenue.priceCross wideBid.homeNetwork 800 = true ∧
    ∃ desc, tryOrderMatch sampleVenue .empty wideBid wideAsk (.block 800) = some desc ∧
      ¬ desc.Honours (makerOf wideBid wideAsk) (takerOf wideBid wideAsk) := by
  obtain ⟨desc, matched⟩ := Option.isSome_iff_exists.mp (show
    (tryOrderMatch sampleVenue .empty wideBid wideAsk (.block 800)).isSome by decide +kernel)
  refine ⟨by decide, by decide, rfl, desc, matched, ?_⟩
  have sides : makerOf wideBid wideAsk = wideBid ∧ takerOf wideBid wideAsk = wideAsk := by
    have first : makerIsFirst wideBid wideAsk = true := by decide
    simp only [makerOf, takerOf, if_pos first, and_self]
  have apart : 0 ≤ wideBid.getValue / wideBid.giveValue ∧
      ¬ wideAsk.getValue / wideAsk.giveValue * (wideBid.getValue / wideBid.giveValue) ≤ 1 := by
    decide +kernel
  rw [sides.1, sides.2]
  rintro (⟨-, -, honoured⟩ | ⟨-, -, honoured⟩)
  · exact apart.2 (honoured_limits_meet honoured apart.1)
  · exact apart.2 (honoured_limits_meet honoured apart.1)

end Sample

end Orders

end XChainHub.CrossChain.Dex
