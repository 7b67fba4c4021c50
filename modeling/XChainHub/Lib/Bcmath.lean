import XChainHub.Library.DecimalRounding
import XChainHub.Library.DecimalText

/-!
The BigNumber helpers of bcmath.js. A BigNumber is its exact rational value; each
mathjs operation rounds to 64 significant digits and the fixed format to the
places asked for, both half-up. Text is read as a plain decimal numeral.
-/
namespace XChainHub.Bcmath
open DecimalRounding DecimalText

def bcnum (v : String) : ℚ := (signedValue (trim v.toList)).getD 0

def bcstr (q : ℚ) : String := plainText q

/- mathjs.format of one operation's result, read back. -/
def formatted (q : ℚ) (decimals : ℕ) : ℚ := fixed decimals (significant 64 q)

def bcsub (a b : ℚ) (decimals : ℕ) : ℚ := formatted (a - b) decimals

def bcadd (a b : ℚ) (decimals : ℕ) : ℚ := formatted (a + b) decimals

def bcmul (a b : ℚ) (decimals : ℕ) : ℚ := formatted (a * b) decimals

/- A quotient by zero formats as an infinity or a NaN, which bcnum reads as 0. -/
def bcdiv (a b : ℚ) (decimals : ℕ) : ℚ := if b = 0 then 0 else formatted (a / b) decimals

def getPrice (numerator denominator : ℚ) : ℚ := bcdiv numerator denominator 64

/- times, plus and div are decimal.js operations of 64 digits; floor is exact. -/
def bcround (num : ℚ) (decimals : ℕ) : ℚ :=
  let scaled := significant 64 (num * 10 ^ decimals)
  fixed decimals (significant 64 (⌊significant 64 (scaled + 1 / 2)⌋ / 10 ^ decimals))

/- The text a BigNumber formats as, and the value the text reads back as. -/
theorem bcnum_bcstr {q : ℚ} {places : ℕ} (grid : OnGrid places q) (nonneg : 0 ≤ q) :
    bcnum (bcstr q) = q := by
  obtain ⟨n, shape⟩ := grid
  rw [bcnum, bcstr, plain_text_value shape nonneg, Option.getD_some]

section Exact
variable {places decimals : ℕ} {q : ℚ}

theorem formatted_exact (grid : OnGrid places q) (fits : places ≤ decimals)
    (short : |q| * 10 ^ places < 10 ^ 64) : formatted q decimals = q := by
  rw [formatted, significant_exact grid short, fixed_on_grid (grid.finer fits)]

theorem formatted_nonneg (nonneg : 0 ≤ q) : 0 ≤ formatted q decimals :=
  fixed_nonneg (significant_nonneg nonneg)

theorem formatted_nonpos (nonpos : q ≤ 0) : formatted q decimals ≤ 0 :=
  fixed_nonpos (significant_nonpos nonpos)

theorem formatted_pos (pos : 0 < formatted q decimals) : 0 < q := by
  by_contra nonpos
  exact absurd (formatted_nonpos (not_lt.mp nonpos)) (not_le.mpr pos)

end Exact

section Error

/- The relative error of 64 digits and the absolute error of 64 places. -/
def digitError : ℚ := 1 / 2 / 10 ^ 63

def placeError : ℚ := 1 / 2 / 10 ^ 64

theorem significant_le {q : ℚ} (nonneg : 0 ≤ q) : significant 64 q ≤ q + q * digitError := by
  have close : |significant 64 q - q| ≤ |q| / 2 / 10 ^ (64 - 1) := significant_error (by decide)
  rw [abs_of_nonneg nonneg, abs_le] at close
  have bound : q / 2 / 10 ^ (64 - 1) = q * digitError := by
    unfold digitError
    ring
  rw [bound] at close
  linarith [close.2]

theorem formatted_error (q : ℚ) (decimals : ℕ) :
    |formatted q decimals - q| ≤ |q| * digitError + 1 / 2 / 10 ^ decimals := by
  have kept : |significant 64 q - q| ≤ |q| / 2 / 10 ^ (64 - 1) := significant_error (by decide)
  have close := fixed_error decimals (significant 64 q)
  have bound : |q| / 2 / 10 ^ (64 - 1) = |q| * digitError := by
    unfold digitError
    ring
  rw [bound] at kept
  have triangle := abs_sub_le (formatted q decimals) (significant 64 q) q
  unfold formatted at triangle ⊢
  linarith

theorem formatted_le {q : ℚ} (nonneg : 0 ≤ q) :
    formatted q 64 ≤ q + q * digitError + placeError := by
  have kept := significant_le nonneg
  have close := fixed_error 64 (significant 64 q)
  rw [abs_le] at close
  have bound : (1 : ℚ) / 2 / 10 ^ 64 = placeError := rfl
  rw [bound] at close
  unfold formatted
  linarith [close.2]

theorem bcround_pos {q : ℚ} {decimals : ℕ} (pos : 0 < bcround q decimals) : 0 < q := by
  by_contra nonpos
  have unit := pow_pos_ten decimals
  have scaled : significant 64 (q * 10 ^ decimals) ≤ 0 :=
    significant_nonpos (mul_nonpos_of_nonpos_of_nonneg (not_lt.mp nonpos) unit.le)
  have raised : significant 64 (significant 64 (q * 10 ^ decimals) + 1 / 2) < 1 := by
    by_cases sign : significant 64 (q * 10 ^ decimals) + 1 / 2 ≤ 0
    · have low : significant 64 (significant 64 (q * 10 ^ decimals) + 1 / 2) ≤ 0 :=
        significant_nonpos sign
      linarith
    · have kept := significant_le (not_le.mp sign).le
      have half : (significant 64 (q * 10 ^ decimals) + 1 / 2) * digitError ≤
          1 / 2 * digitError := by
        apply mul_le_mul_of_nonneg_right
        · linarith
        · unfold digitError
          norm_num
      have small : 1 / 2 * digitError < 1 / 2 := by
        unfold digitError
        norm_num
      linarith
  have floored : (⌊significant 64 (significant 64 (q * 10 ^ decimals) + 1 / 2)⌋ : ℚ) ≤ 0 := by
    have below : ⌊significant 64 (significant 64 (q * 10 ^ decimals) + 1 / 2)⌋ < 1 :=
      Int.floor_lt.mpr (by exact_mod_cast raised)
    have whole : ⌊significant 64 (significant 64 (q * 10 ^ decimals) + 1 / 2)⌋ ≤ 0 := by omega
    exact_mod_cast whole
  have rounded : bcround q decimals ≤ 0 := by
    unfold bcround
    exact fixed_nonpos (significant_nonpos (div_nonpos_of_nonpos_of_nonneg floored unit.le))
  linarith

theorem bcround_on_grid (q : ℚ) (decimals : ℕ) : OnGrid decimals (bcround q decimals) :=
  on_grid_fixed _ _

/-- Rounding a value less than a twentieth of a unit above a grid point does not pass
    the grid point, up to 10 ^ 61 units. -/
theorem bcround_le {q : ℚ} {decimals : ℕ} {n : ℤ} (nonneg : 0 ≤ q)
    (near : q * 10 ^ decimals ≤ n + 1 / 20) (short : (n : ℚ) ≤ 10 ^ 61) :
    bcround q decimals ≤ n / 10 ^ decimals := by
  have unit := pow_pos_ten decimals
  have scaled_nonneg : 0 ≤ q * 10 ^ decimals := by positivity
  have first := significant_le scaled_nonneg
  have first_nonneg : 0 ≤ significant 64 (q * 10 ^ decimals) := significant_nonneg scaled_nonneg
  have second := significant_le (q := significant 64 (q * 10 ^ decimals) + 1 / 2) (by linarith)
  have second_nonneg : 0 ≤ significant 64 (significant 64 (q * 10 ^ decimals) + 1 / 2) :=
    significant_nonneg (by linarith)
  have small : (10 : ℚ) ^ 61 * digitError = 1 / 200 := by
    unfold digitError
    norm_num
  have tiny : 0 ≤ digitError ∧ digitError ≤ 1 / 200 := by
    unfold digitError
    constructor
    · norm_num
    · norm_num
  have upper : q * 10 ^ decimals ≤ 10 ^ 61 + 1 / 20 := by linarith
  have once : q * 10 ^ decimals * digitError ≤ 1 / 200 + 1 / 20 * digitError := by
    calc q * 10 ^ decimals * digitError ≤ (10 ^ 61 + 1 / 20) * digitError :=
          mul_le_mul_of_nonneg_right upper tiny.1
      _ = 1 / 200 + 1 / 20 * digitError := by rw [add_mul, small]
  have middle : significant 64 (q * 10 ^ decimals) ≤ n + 1 / 20 + 1 / 100 := by linarith
  have twice : (significant 64 (q * 10 ^ decimals) + 1 / 2) * digitError ≤
      1 / 200 + digitError := by
    calc (significant 64 (q * 10 ^ decimals) + 1 / 2) * digitError
        ≤ (10 ^ 61 + 1) * digitError := by
          apply mul_le_mul_of_nonneg_right _ tiny.1
          linarith
      _ = 1 / 200 + digitError := by rw [add_mul, small, one_mul]
  have below : significant 64 (significant 64 (q * 10 ^ decimals) + 1 / 2) < n + 1 := by linarith
  have floored : ⌊significant 64 (significant 64 (q * 10 ^ decimals) + 1 / 2)⌋ ≤ n := by
    apply Int.lt_add_one_iff.mp
    apply Int.floor_lt.mpr
    push_cast
    exact below
  have floored_nonneg : 0 ≤ ⌊significant 64 (significant 64 (q * 10 ^ decimals) + 1 / 2)⌋ :=
    Int.floor_nonneg.mpr second_nonneg
  unfold bcround
  simp only
  generalize ⌊significant 64 (significant 64 (q * 10 ^ decimals) + 1 / 2)⌋ = k at *
  have low : (0 : ℚ) ≤ k := by exact_mod_cast floored_nonneg
  have high : (k : ℚ) ≤ n := by exact_mod_cast floored
  have grid : OnGrid decimals ((k : ℚ) / 10 ^ decimals) := ⟨k, rfl⟩
  have units : |(k : ℚ) / 10 ^ decimals| * 10 ^ decimals = k := by
    rw [abs_of_nonneg (by positivity)]
    field_simp
  have digits : |(k : ℚ) / 10 ^ decimals| * 10 ^ decimals < 10 ^ 64 := by
    rw [units]
    have more : (10 : ℚ) ^ 61 < 10 ^ 64 := by norm_num
    linarith
  rw [significant_exact grid digits, fixed_on_grid grid]
  exact div_le_div_of_nonneg_right high unit.le

/-- Selling by the price what the reciprocal price would have bought more of: the error
    stays below a twentieth of a unit while the amounts and the rates are of modest size. -/
theorem reciprocal_fill_le {give get sold cap bought : ℚ} {decimals : ℕ} (givePos : 0 < give)
    (getPos : 0 < get) (soldPos : 0 < sold) (within : bought ≤ cap) (boughtNonneg : 0 ≤ bought)
    (worth : sold < bcmul bought (getPrice give get) 64)
    (modest : (cap + 1) * (get / give + give / get) * 10 ^ decimals ≤ 10 ^ 61) :
    bcmul sold (getPrice get give) 64 * 10 ^ decimals ≤ cap * 10 ^ decimals + 1 / 20 := by
  have unit := pow_pos_ten decimals
  have capNonneg : 0 ≤ cap := boughtNonneg.trans within
  obtain ⟨ask, askShape⟩ : ∃ ask, ask = get / give := ⟨_, rfl⟩
  obtain ⟨bid, bidShape⟩ : ∃ bid, bid = give / get := ⟨_, rfl⟩
  have askPos : 0 < ask := by rw [askShape]; positivity
  have bidPos : 0 < bid := by rw [bidShape]; positivity
  have inverse : ask * bid = 1 := by
    rw [askShape, bidShape]
    field_simp
  have rates : 2 ≤ ask + bid := by nlinarith [sq_nonneg (ask - bid)]
  have askPrice : getPrice get give ≤ ask * (1 + digitError) + placeError := by
    have rounded := formatted_le askPos.le
    rw [getPrice, bcdiv, if_neg givePos.ne', ← askShape]
    linarith
  have bidPrice : getPrice give get ≤ bid * (1 + digitError) + placeError := by
    have rounded := formatted_le bidPos.le
    rw [getPrice, bcdiv, if_neg getPos.ne', ← bidShape]
    linarith
  have askPriceNonneg : 0 ≤ getPrice get give := by
    rw [getPrice, bcdiv, if_neg givePos.ne', ← askShape]
    exact formatted_nonneg askPos.le
  have bidPriceNonneg : 0 ≤ getPrice give get := by
    rw [getPrice, bcdiv, if_neg getPos.ne', ← bidShape]
    exact formatted_nonneg bidPos.le
  have errors : 0 ≤ digitError ∧ 0 ≤ placeError := by
    unfold digitError placeError
    constructor
    · norm_num
    · norm_num
  obtain ⟨digitNonneg, placeNonneg⟩ := errors
  have soldBound : sold ≤ cap * (bid * (1 + digitError) + placeError) * (1 + digitError) +
      placeError := by
    have product : bought * getPrice give get ≤ cap * (bid * (1 + digitError) + placeError) := by
      apply mul_le_mul within bidPrice bidPriceNonneg capNonneg
    have rounded := formatted_le (mul_nonneg boughtNonneg bidPriceNonneg)
    have scaled := mul_le_mul_of_nonneg_right product (by linarith : 0 ≤ 1 + digitError)
    unfold bcmul at worth
    linarith
  have paid : sold * getPrice get give ≤
      (cap * (bid * (1 + digitError) + placeError) * (1 + digitError) + placeError) *
        (ask * (1 + digitError) + placeError) := by
    apply mul_le_mul soldBound askPrice askPriceNonneg
    linarith
  have rounded := formatted_le (mul_nonneg soldPos.le askPriceNonneg)
  have scaled := mul_le_mul_of_nonneg_right paid (by linarith : 0 ≤ 1 + digitError)
  have expanded : (cap * (bid * (1 + digitError) + placeError) * (1 + digitError) + placeError) *
      (ask * (1 + digitError) + placeError) * (1 + digitError) =
      (1 + digitError) ^ 4 * cap * (ask * bid) +
        (1 + digitError) ^ 3 * placeError * (cap * bid + cap * ask) +
        (1 + digitError) ^ 2 * placeError ^ 2 * cap +
        (1 + digitError) ^ 2 * placeError * ask + (1 + digitError) * placeError ^ 2 := by
    ring
  rw [inverse, mul_one] at expanded
  have excess : bcmul sold (getPrice get give) 64 ≤
      cap + 30 * placeError * ((cap + 1) * (ask + bid)) := by
    have capAsk : 0 ≤ cap * ask := by positivity
    have capBid : 0 ≤ cap * bid := by positivity
    have capRates : 2 * cap ≤ cap * ask + cap * bid := by
      have weighted := mul_le_mul_of_nonneg_left rates capNonneg
      linarith
    unfold bcmul
    rw [expanded] at scaled
    unfold digitError at scaled rounded
    unfold placeError at scaled rounded ⊢
    norm_num at scaled rounded ⊢
    linarith
  have size : 30 * placeError * ((cap + 1) * (ask + bid)) * 10 ^ decimals ≤ 1 / 20 := by
    rw [askShape, bidShape]
    calc 30 * placeError * ((cap + 1) * (get / give + give / get)) * 10 ^ decimals
        = 30 * placeError * ((cap + 1) * (get / give + give / get) * 10 ^ decimals) := by ring
      _ ≤ 30 * placeError * 10 ^ 61 := by
          apply mul_le_mul_of_nonneg_left modest
          positivity
      _ ≤ 1 / 20 := by
          unfold placeError
          norm_num
  calc bcmul sold (getPrice get give) 64 * 10 ^ decimals
      ≤ (cap + 30 * placeError * ((cap + 1) * (ask + bid))) * 10 ^ decimals :=
        mul_le_mul_of_nonneg_right excess unit.le
    _ ≤ cap * 10 ^ decimals + 1 / 20 := by
        rw [add_mul]
        linarith

end Error

end XChainHub.Bcmath
