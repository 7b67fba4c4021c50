import XChainHub.Lib.Bcmath

/-!
Where the roundings of bcmath.js resolve an exact ratio: amounts that are whole
units of one grid, few enough of them that an error of the 64 digits kept cannot
cross a half of a unit or change the order of two ratios.
-/
namespace XChainHub.Bcmath
open DecimalRounding

section Ratios

/- Fewer than this many units of its grid: the square of the bound is within the digits kept. -/
def unitBound : ℚ := 10 ^ 31

/- A positive amount of fewer units than the bound. -/
structure Units (places : ℕ) (q : ℚ) (n : ℤ) : Prop where
  shape : q = n / 10 ^ places
  positive : 0 < n
  short : (n : ℚ) < unitBound

theorem units_of {places : ℕ} {q : ℚ} (grid : OnGrid places q) (pos : 0 < q)
    (short : q * 10 ^ places < unitBound) : ∃ n, Units places q n := by
  have unit := pow_pos_ten places
  obtain ⟨n, rfl⟩ := grid
  refine ⟨n, rfl, ?_, ?_⟩
  · have numerator := (div_pos_iff_of_pos_right unit).mp pos
    exact_mod_cast numerator
  · rwa [div_mul_cancel₀ _ unit.ne'] at short

variable {places : ℕ} {a b c d : ℚ} {m n k l : ℤ}

theorem Units.pos (units : Units places a n) : 0 < a := by
  rw [units.shape]
  have count : (0 : ℚ) < n := by exact_mod_cast units.positive
  have unit := pow_pos_ten places
  positivity

theorem Units.ratio (top : Units places a m) (low : Units places b n) : a / b = m / n := by
  have unit := pow_pos_ten places
  have count : (0 : ℚ) < n := by exact_mod_cast low.positive
  rw [top.shape, low.shape]
  field_simp

theorem price_error (pos : 0 < b) (nonneg : 0 ≤ a) :
    |getPrice a b - a / b| ≤ a / b * digitError + placeError := by
  have ratio : 0 ≤ a / b := by positivity
  have close := formatted_error (a / b) 64
  rw [abs_of_nonneg ratio] at close
  rw [getPrice, bcdiv, if_neg pos.ne']
  exact close

/-- Two ratios of few units are told apart by their prices. -/
theorem ratio_le_of_price_le (top : Units places a m) (low : Units places b n)
    (other : Units places c k) (base : Units places d l)
    (ordered : getPrice a b ≤ getPrice c d) : a / b ≤ c / d := by
  by_contra crossed
  have ask := abs_le.mp (price_error low.pos top.pos.le)
  have bid := abs_le.mp (price_error base.pos other.pos.le)
  rw [top.ratio low, other.ratio base] at *
  have nPos : (0 : ℚ) < n := by exact_mod_cast low.positive
  have lPos : (0 : ℚ) < l := by exact_mod_cast base.positive
  have mPos : (0 : ℚ) < m := by exact_mod_cast top.positive
  have digit : 0 ≤ digitError := by unfold digitError; norm_num
  have less : (k : ℚ) / l < m / n := not_le.mp crossed
  have apart : (1 : ℚ) ≤ m * l - k * n := by
    have cross : (k : ℚ) * n < m * l := (div_lt_div_iff₀ lPos nPos).mp less
    have whole : k * n < m * l := by exact_mod_cast cross
    have step : k * n + 1 ≤ m * l := whole
    have step' : (k : ℚ) * n + 1 ≤ m * l := by exact_mod_cast step
    linarith
  have gap : (m : ℚ) / n - k / l ≤ 2 * (m / n * digitError + placeError) := by
    have smaller := mul_le_mul_of_nonneg_right less.le digit
    linarith [ask.1, bid.2]
  have cleared : (m : ℚ) * l - k * n ≤ 2 * (m * l) * digitError + 2 * (n * l) * placeError := by
    have scaled := mul_le_mul_of_nonneg_right gap (by positivity : (0 : ℚ) ≤ n * l)
    calc (m : ℚ) * l - k * n = (m / n - k / l) * (n * l) := by field_simp
      _ ≤ 2 * (m / n * digitError + placeError) * (n * l) := scaled
      _ = 2 * (m * l) * digitError + 2 * (n * l) * placeError := by field_simp
  have first : (m : ℚ) * l ≤ 10 ^ 31 * 10 ^ 31 :=
    mul_le_mul top.short.le base.short.le lPos.le (by norm_num)
  have second : (n : ℚ) * l ≤ 10 ^ 31 * 10 ^ 31 :=
    mul_le_mul low.short.le base.short.le lPos.le (by norm_num)
  unfold digitError placeError at cleared
  norm_num at cleared first second
  linarith

end Ratios

section Nearest

/-- The floor of a value near a half above a fraction rounds the fraction to nearest, where
    the error is less than the fraction can be off a half. -/
theorem floor_nearest {x s e : ℚ} {num den : ℤ} (pos : 0 < den) (shape : x * den = num)
    (close : |s - (x + 1 / 2)| ≤ e) (resolved : 2 * den * e < 1) :
    |(⌊s⌋ : ℚ) - x| ≤ 1 / 2 := by
  have denPos : (0 : ℚ) < den := by exact_mod_cast pos
  have low := Int.floor_le s
  have high := Int.lt_floor_add_one s
  generalize ⌊s⌋ = k at *
  obtain ⟨above, below⟩ := abs_le.mp close
  have off : ∀ z : ℚ, z ≤ e → ∀ i : ℤ, 2 * den * z = i → i ≤ 0 := by
    intro z small i whole
    have scaled : 2 * (den : ℚ) * z ≤ 2 * den * e :=
      mul_le_mul_of_nonneg_left small (by positivity)
    have less : (i : ℚ) < 1 := by linarith
    have less' : i < 1 := by exact_mod_cast less
    omega
  rw [abs_le]
  constructor
  · have step := off (x - k - 1 / 2) (by linarith) (2 * num - 2 * den * k - den) (by
      push_cast
      rw [← shape]
      ring)
    have zero : (2 * num - 2 * den * k - den : ℚ) ≤ 0 := by exact_mod_cast step
    rw [← shape] at zero
    nlinarith
  · have step := off (k - 1 / 2 - x) (by linarith) (2 * den * k - den - 2 * num) (by
      push_cast
      rw [← shape]
      ring)
    have zero : (2 * den * k - den - 2 * num : ℚ) ≤ 0 := by exact_mod_cast step
    rw [← shape] at zero
    nlinarith

/- The value whose floor bcround takes. -/
def raised (v : ℚ) (decimals : ℕ) : ℚ :=
  significant 64 (significant 64 (v * 10 ^ decimals) + 1 / 2)

variable {v x : ℚ} {decimals : ℕ}

theorem raised_error (nonneg : 0 ≤ v) : |raised v decimals - (v * 10 ^ decimals + 1 / 2)| ≤
    (3 * (v * 10 ^ decimals) + 1) * digitError := by
  have unit := pow_pos_ten decimals
  have scaled : 0 ≤ v * 10 ^ decimals := by positivity
  unfold raised
  generalize v * 10 ^ decimals = w at *
  have first : |significant 64 w - w| ≤ |w| / 2 / 10 ^ (64 - 1) := significant_error (by decide)
  have kept : 0 ≤ significant 64 w := significant_nonneg scaled
  generalize significant 64 w = s at *
  have second : |significant 64 (s + 1 / 2) - (s + 1 / 2)| ≤ |s + 1 / 2| / 2 / 10 ^ (64 - 1) :=
    significant_error (by decide)
  rw [abs_of_nonneg scaled] at first
  rw [abs_of_nonneg (show 0 ≤ s + 1 / 2 by linarith)] at second
  generalize significant 64 (s + 1 / 2) = r at *
  rw [abs_le] at *
  unfold digitError
  norm_num at *
  constructor
  · linarith
  · linarith

theorem bcround_floor (low : 0 ≤ ⌊raised v decimals⌋) (high : (⌊raised v decimals⌋ : ℚ) < 10 ^ 64) :
    bcround v decimals = ⌊raised v decimals⌋ / 10 ^ decimals := by
  have unit := pow_pos_ten decimals
  show fixed decimals (significant 64 ((⌊raised v decimals⌋ : ℚ) / 10 ^ decimals)) = _
  generalize ⌊raised v decimals⌋ = k at *
  have count : (0 : ℚ) ≤ k := by exact_mod_cast low
  have grid : OnGrid decimals ((k : ℚ) / 10 ^ decimals) := ⟨k, rfl⟩
  have digits : |(k : ℚ) / 10 ^ decimals| * 10 ^ decimals < 10 ^ 64 := by
    rw [abs_of_nonneg (by positivity), div_mul_cancel₀ _ unit.ne']
    exact high
  rw [significant_exact grid digits, fixed_on_grid grid]

/-- Rounding a value computed near a fraction of a unit lands within half a unit of the
    fraction itself. -/
theorem bcround_nearest {num : ℤ} (den : ℤ) (pos : 0 < den) (shape : x * den = num) (nonneg : 0 ≤ v)
    (size : v * 10 ^ decimals ≤ 10 ^ 63)
    (resolved : 2 * den *
      (|v * 10 ^ decimals - x| + (3 * (v * 10 ^ decimals) + 1) * digitError) < 1) :
    |bcround v decimals - x / 10 ^ decimals| ≤ 1 / 2 / 10 ^ decimals := by
  have unit := pow_pos_ten decimals
  have scaled : 0 ≤ v * 10 ^ decimals := by positivity
  have error : |raised v decimals - (v * 10 ^ decimals + 1 / 2)| ≤
      (3 * (v * 10 ^ decimals) + 1) * digitError := raised_error nonneg
  have close : |raised v decimals - (x + 1 / 2)| ≤
      |v * 10 ^ decimals - x| + (3 * (v * 10 ^ decimals) + 1) * digitError := by
    have triangle := abs_sub_le (raised v decimals) (v * 10 ^ decimals + 1 / 2) (x + 1 / 2)
    have same : v * 10 ^ decimals + 1 / 2 - (x + 1 / 2) = v * 10 ^ decimals - x := by ring
    rw [same] at triangle
    linarith
  have rounded := floor_nearest pos shape close resolved
  have floored : 0 ≤ ⌊raised v decimals⌋ := by
    apply Int.floor_nonneg.mpr
    apply significant_nonneg
    have kept : 0 ≤ significant 64 (v * 10 ^ decimals) := significant_nonneg scaled
    linarith
  have top : (⌊raised v decimals⌋ : ℚ) < 10 ^ 64 := by
    have below := Int.floor_le (raised v decimals)
    have above := (abs_le.mp error).2
    unfold digitError at above
    norm_num at *
    linarith
  rw [bcround_floor floored top]
  calc |(⌊raised v decimals⌋ : ℚ) / 10 ^ decimals - x / 10 ^ decimals|
      = |(⌊raised v decimals⌋ : ℚ) - x| / 10 ^ decimals := by
        rw [← sub_div, abs_div, abs_of_pos unit]
    _ ≤ 1 / 2 / 10 ^ decimals := div_le_div_of_nonneg_right rounded unit.le

/- The grid of the unit counts, and a coarser one that an amount is rounded to. -/
variable {places : ℕ} {m n d : ℚ} {i j k : ℤ}

theorem amount_nearest (amount : Units places m i) (coarser : decimals ≤ places)
    (few : places ≤ 18) : |bcround m decimals - m| ≤ 1 / 2 / 10 ^ decimals := by
  have unit := pow_pos_ten decimals
  have step : (10 : ℚ) ^ places = 10 ^ decimals * 10 ^ (places - decimals) := by
    rw [← pow_add, Nat.add_sub_cancel' coarser]
  have finer : (10 : ℚ) ^ (places - decimals) ≤ 10 ^ 18 :=
    pow_le_pow_right₀ (by norm_num) (by omega)
  have rest := pow_pos_ten (places - decimals)
  have counted : m * 10 ^ decimals * 10 ^ (places - decimals) = i := by
    rw [amount.shape, step]
    field_simp
  have small : m * 10 ^ decimals ≤ 10 ^ 31 := by
    have one : (1 : ℚ) ≤ 10 ^ (places - decimals) := one_le_pow₀ (by norm_num)
    have grown := mul_le_mul_of_nonneg_left one (mul_nonneg amount.pos.le unit.le)
    have short : (i : ℚ) ≤ 10 ^ 31 := amount.short.le
    linarith
  have nearest : |bcround m decimals - m * 10 ^ decimals / 10 ^ decimals| ≤
      1 / 2 / 10 ^ decimals := by
    refine bcround_nearest (10 ^ (places - decimals)) (by positivity)
      (by push_cast; exact counted) amount.pos.le (by linarith) ?_
    have short : (i : ℚ) ≤ 10 ^ 31 := amount.short.le
    have total : 2 * (10 : ℚ) ^ (places - decimals) * ((3 * (m * 10 ^ decimals) + 1) * digitError) =
        (6 * i + 2 * 10 ^ (places - decimals)) * digitError := by
      rw [← counted]
      ring
    push_cast
    rw [sub_self, abs_zero, zero_add, total]
    unfold digitError
    norm_num at *
    linarith
  rwa [mul_div_cancel_right₀ _ unit.ne'] at nearest

theorem product_error (top : Units places n j) (low : Units places d k) (nonneg : 0 ≤ m) :
    |bcmul m (getPrice n d) 64 - m * (n / d)| ≤
      3 * (m * (n / d)) * digitError + (2 * m + 1) * placeError := by
  have rate : 0 ≤ n / d := div_nonneg top.pos.le low.pos.le
  have priced := abs_le.mp (price_error low.pos top.pos.le)
  have cheap : 0 ≤ getPrice n d := by
    rw [getPrice, bcdiv, if_neg low.pos.ne']
    exact formatted_nonneg rate
  have rounded := formatted_error (m * getPrice n d) 64
  rw [abs_of_nonneg (mul_nonneg nonneg cheap)] at rounded
  have above := mul_le_mul_of_nonneg_left priced.2 nonneg
  have below := mul_le_mul_of_nonneg_left priced.1 nonneg
  have value := mul_nonneg nonneg rate
  have split : m * (getPrice n d - n / d) = m * getPrice n d - m * (n / d) := by ring
  have parts : m * (n / d * digitError + placeError) =
      m * (n / d) * digitError + m * placeError := by ring
  rw [mul_neg, split, parts] at below
  rw [split, parts] at above
  unfold bcmul
  generalize formatted (m * getPrice n d) 64 = z at *
  generalize m * getPrice n d = y at *
  generalize m * (n / d) = w at *
  rw [abs_le] at *
  unfold digitError placeError at *
  norm_num at *
  constructor
  · linarith
  · linarith

/-- An amount converted at the price of two others is within half a unit of the exact
    conversion. -/
theorem converted_nearest (amount : Units places m i) (top : Units places n j)
    (low : Units places d k) (coarser : decimals ≤ places) (few : places ≤ 18) :
    |bcround (bcmul m (getPrice n d) 64) decimals - m * (n / d)| ≤ 1 / 2 / 10 ^ decimals := by
  have unit := pow_pos_ten decimals
  have step : (10 : ℚ) ^ places = 10 ^ decimals * 10 ^ (places - decimals) := by
    rw [← pow_add, Nat.add_sub_cancel' coarser]
  have rest := pow_pos_ten (places - decimals)
  have whole : (10 : ℚ) ^ places ≤ 10 ^ 18 := pow_le_pow_right₀ (by norm_num) few
  have finer : (10 : ℚ) ^ (places - decimals) ≤ 10 ^ 18 :=
    pow_le_pow_right₀ (by norm_num) (by omega)
  have iPos : (0 : ℚ) < i := by exact_mod_cast amount.positive
  have jPos : (0 : ℚ) < j := by exact_mod_cast top.positive
  have kPos : (0 : ℚ) < k := by exact_mod_cast low.positive
  have iShort : (i : ℚ) ≤ 10 ^ 31 := amount.short.le
  have jShort : (j : ℚ) ≤ 10 ^ 31 := top.short.le
  have kShort : (k : ℚ) ≤ 10 ^ 31 := low.short.le
  have error := product_error top low amount.pos.le
  have nonneg : 0 ≤ bcmul m (getPrice n d) 64 := by
    apply formatted_nonneg
    apply mul_nonneg amount.pos.le
    rw [getPrice, bcdiv, if_neg low.pos.ne']
    exact formatted_nonneg (div_nonneg top.pos.le low.pos.le)
  generalize bcmul m (getPrice n d) 64 = v at *
  -- the products of two counts, and of a count and the grid
  have value : (k * 10 ^ (places - decimals) : ℚ) * (m * (n / d) * 10 ^ decimals) = i * j := by
    rw [top.ratio low, amount.shape, step]
    field_simp
  have scale : (k * 10 ^ (places - decimals) : ℚ) * (m * 10 ^ decimals) = k * i := by
    rw [amount.shape, step]
    field_simp
  have grid : (k * 10 ^ (places - decimals) : ℚ) * 10 ^ decimals = k * 10 ^ places := by
    rw [step]
    ring
  have ij : (i : ℚ) * j ≤ 10 ^ 31 * 10 ^ 31 := mul_le_mul iShort jShort jPos.le (by norm_num)
  have ki : (k : ℚ) * i ≤ 10 ^ 31 * 10 ^ 31 := mul_le_mul kShort iShort iPos.le (by norm_num)
  have kp : (k : ℚ) * 10 ^ places ≤ 10 ^ 31 * 10 ^ 18 :=
    mul_le_mul kShort whole (pow_pos_ten places).le (by norm_num)
  have kr : (k : ℚ) * 10 ^ (places - decimals) ≤ 10 ^ 31 * 10 ^ 18 :=
    mul_le_mul kShort finer rest.le (by norm_num)
  have krOne : (1 : ℚ) ≤ k * 10 ^ (places - decimals) := by
    have one : (1 : ℚ) ≤ 10 ^ (places - decimals) := one_le_pow₀ (by norm_num)
    have kOne : (1 : ℚ) ≤ k := by exact_mod_cast low.positive
    calc (1 : ℚ) = 1 * 1 := by ring
      _ ≤ k * 10 ^ (places - decimals) := mul_le_mul kOne one (by norm_num) kPos.le
  have off : (k * 10 ^ (places - decimals) : ℚ) *
      |v * 10 ^ decimals - m * (n / d) * 10 ^ decimals| ≤
        3 * (i * j) * digitError + (2 * (k * i) + k * 10 ^ places) * placeError := by
    have scaled := mul_le_mul_of_nonneg_left error
      (by positivity : (0 : ℚ) ≤ k * 10 ^ (places - decimals) * 10 ^ decimals)
    rw [← sub_mul, abs_mul, abs_of_pos unit, ← value, ← scale, ← grid]
    calc (k * 10 ^ (places - decimals) : ℚ) * (|v - m * (n / d)| * 10 ^ decimals)
        = k * 10 ^ (places - decimals) * 10 ^ decimals * |v - m * (n / d)| := by ring
      _ ≤ _ := scaled
      _ = _ := by ring
  have reach : (k * 10 ^ (places - decimals) : ℚ) * (v * 10 ^ decimals) ≤
      i * j + (3 * (i * j) * digitError + (2 * (k * i) + k * 10 ^ places) * placeError) := by
    have within := mul_le_mul_of_nonneg_left
      (le_abs_self (v * 10 ^ decimals - m * (n / d) * 10 ^ decimals))
      (show (0 : ℚ) ≤ k * 10 ^ (places - decimals) by linarith)
    rw [mul_sub] at within
    linarith
  have nearest : |bcround v decimals - m * (n / d) * 10 ^ decimals / 10 ^ decimals| ≤
      1 / 2 / 10 ^ decimals := by
    have denominator : (0 : ℤ) < k * 10 ^ (places - decimals) := by
      have count := low.positive
      positivity
    have shape : m * (n / d) * 10 ^ decimals * ((k * 10 ^ (places - decimals) : ℤ) : ℚ) =
        ((i * j : ℤ) : ℚ) := by
      push_cast
      rw [mul_comm, value]
    refine bcround_nearest (k * 10 ^ (places - decimals)) denominator shape nonneg ?_ ?_
    · have scaled : v * 10 ^ decimals ≤ k * 10 ^ (places - decimals) * (v * 10 ^ decimals) :=
        le_mul_of_one_le_left (mul_nonneg nonneg unit.le) krOne
      unfold digitError placeError at reach
      norm_num at *
      linarith
    · push_cast
      have total : 2 * ((k : ℚ) * 10 ^ (places - decimals)) *
          (|v * 10 ^ decimals - m * (n / d) * 10 ^ decimals| +
            (3 * (v * 10 ^ decimals) + 1) * digitError) =
          2 * (k * 10 ^ (places - decimals) *
            |v * 10 ^ decimals - m * (n / d) * 10 ^ decimals|) +
          (6 * (k * 10 ^ (places - decimals) * (v * 10 ^ decimals)) +
            2 * (k * 10 ^ (places - decimals))) * digitError := by ring
      rw [total]
      unfold digitError placeError at *
      norm_num at *
      linarith
  rwa [mul_div_cancel_right₀ _ unit.ne'] at nearest

end Nearest

end XChainHub.Bcmath
