import XChainHub.Oracle.Consensus.Robust

/-!
The two middles of an even set against the price that is formed of them: the value both round
to, and the deviation band of an even split. The length cap of a canonical price keeps the sum
and the quotient of two near prices within 64 digits.
-/
namespace XChainHub.Oracle.Consensus
open Bcmath DecimalRounding DecimalText OrderStatistics

section Sizes
variable {s : String} {a b : ℚ}

theorem digits_value_bound {cs : List Char} (digits : ∀ c ∈ cs, c.isDigit = true) :
    digitsValue cs < 10 ^ cs.length := by
  induction cs using List.reverseRecOn with
  | nil => decide
  | append_singleton cs c ih =>
    have front := ih (fun d member => digits d (List.mem_append_left [c] member))
    have last : digitValue c < 10 := by
      obtain ⟨low, high⟩ := Char.isDigit_iff_toNat.mp (digits c (by simp))
      have zero : '0'.toNat = 48 := by decide
      have nine : '9'.toNat = 57 := by decide
      unfold digitValue
      omega
    have one : digitsValue [c] = digitValue c := by simp [digitsValue]
    rw [digits_value_append, one, List.length_append, List.length_singleton, pow_one,
      pow_succ 10 cs.length]
    omega

/- A price that 40 characters hold: its decimals, and its digits with them. -/
structure Sized (v : ℚ) (places : ℕ) : Prop where
  few : places ≤ 38
  grid : OnGrid places v
  nonneg : 0 ≤ v
  short : v * 10 ^ places < 10 ^ 40

theorem canonical_sized (canonical : isCanonicalText s = true) :
    ∃ places, Sized (bcnum s) places := by
  obtain ⟨length, spelled⟩ := spelled_of_canonical canonical
  cases spelled with
  | whole digits filled =>
    obtain ⟨_, value⟩ := whole_value digits filled
    have bound := digits_value_bound digits
    have cap : 10 ^ s.toList.length ≤ 10 ^ 40 := Nat.pow_le_pow_right (by decide) length
    refine ⟨0, by omega, ?_, ?_, ?_⟩
    · rw [value]
      exact ⟨digitsValue s.toList, by push_cast; simp⟩
    · rw [value]
      positivity
    · rw [value, pow_zero, mul_one]
      exact_mod_cast lt_of_lt_of_le bound cap
  | point whole frac digits filled rest shape =>
    obtain ⟨_, value⟩ := point_value shape digits filled rest
    have size := congrArg List.length shape
    have one : 1 ≤ whole.length := List.length_pos_iff.mpr filled
    rw [List.length_append, List.length_cons] at size
    have unit : (10 : ℚ) ^ frac.length ≠ 0 := by positivity
    have scaled : bcnum s * 10 ^ frac.length =
        ((digitsValue whole * 10 ^ frac.length + digitsValue frac : ℕ) : ℚ) := by
      rw [value]
      push_cast
      field_simp
    refine ⟨frac.length, by omega, ?_, ?_, ?_⟩
    · refine ⟨(digitsValue whole * 10 ^ frac.length + digitsValue frac : ℕ), ?_⟩
      rw [eq_div_iff unit, scaled]
      norm_cast
    · rw [value]
      positivity
    · have front := digits_value_bound digits
      have back := digits_value_bound rest
      have together : digitsValue whole * 10 ^ frac.length + digitsValue frac <
          10 ^ whole.length * 10 ^ frac.length := by
        have step : (digitsValue whole + 1) * 10 ^ frac.length ≤
            10 ^ whole.length * 10 ^ frac.length := Nat.mul_le_mul_right _ front
        rw [Nat.add_mul, Nat.one_mul] at step
        omega
      have cap : 10 ^ whole.length * 10 ^ frac.length ≤ 10 ^ 40 := by
        rw [← pow_add]
        exact Nat.pow_le_pow_right (by decide) (by omega)
      rw [scaled]
      exact_mod_cast lt_of_lt_of_le together cap

/-- Two near prices of 40 characters have a sum of at most 41 digits. -/
theorem sum_short {few many : ℕ} (left : Sized a few) (right : Sized b many) (le : few ≤ many)
    (near : |a - b| ≤ 1) : OnGrid many (a + b) ∧ |a + b| * 10 ^ many < 10 ^ 41 := by
  refine ⟨(left.grid.finer le).add right.grid, ?_⟩
  have unit : (0 : ℚ) < 10 ^ many := by positivity
  have cap : (10 : ℚ) ^ many ≤ 10 ^ 38 := pow_le_pow_right₀ (by norm_num) right.few
  have below : a ≤ b + 1 := by linarith [(abs_le.mp near).2]
  rw [abs_of_nonneg (add_nonneg left.nonneg right.nonneg)]
  calc (a + b) * 10 ^ many ≤ (2 * b + 1) * 10 ^ many :=
        mul_le_mul_of_nonneg_right (by linarith) unit.le
    _ = 2 * (b * 10 ^ many) + 10 ^ many := by ring
    _ < 10 ^ 41 := by
        have short := right.short
        linarith

/-- The sum and the half of two near canonical prices are rounded at scale 18 only. -/
theorem near_mean_rounded {few many : ℕ} (left : Sized a few) (right : Sized b many)
    (near : |a - b| ≤ 1) : bcdiv (bcadd a b 18) 2 18 = fixed 18 (fixed 18 (a + b) / 2) := by
  obtain ⟨places, grid, short⟩ : ∃ places, OnGrid places (a + b) ∧ |a + b| * 10 ^ places < 10 ^ 41 := by
    rcases le_total few many with le | le
    · exact ⟨many, sum_short left right le near⟩
    · rw [abs_sub_comm] at near
      rw [add_comm]
      exact ⟨few, sum_short right left le near⟩
  have nonneg : 0 ≤ a + b := add_nonneg left.nonneg right.nonneg
  have sum : bcadd a b 18 = fixed 18 (a + b) := by
    rw [bcadd, formatted, significant_exact grid (short.trans (by norm_num))]
  have size : a + b < 10 ^ 41 := by
    rw [abs_of_nonneg nonneg] at short
    have unit : (1 : ℚ) ≤ 10 ^ places := one_le_pow₀ (by norm_num)
    nlinarith
  have rounded : fixed 18 (a + b) ≤ 10 ^ 41 + 1 := by
    have close := (abs_le.mp (fixed_error 18 (a + b))).2
    have small : (1 : ℚ) / 2 / 10 ^ 18 ≤ 1 := by norm_num
    linarith
  have half : OnGrid 19 (fixed 18 (a + b) / 2) := by
    obtain ⟨n, shape⟩ := on_grid_fixed 18 (a + b)
    refine ⟨5 * n, ?_⟩
    rw [shape]
    push_cast
    ring
  have half_short : |fixed 18 (a + b) / 2| * 10 ^ 19 < 10 ^ 64 := by
    have rounded_nonneg : 0 ≤ fixed 18 (a + b) := fixed_nonneg nonneg
    rw [abs_of_nonneg (by linarith)]
    linarith
  rw [sum, bcdiv, if_neg (by norm_num), formatted, significant_exact half half_short]

end Sizes

section Agreed
variable {a b : ℚ}

/-- Values that round to one price lie within half a unit of it. -/
theorem rounds_within {v : ℚ} {k : ℤ} (nonneg : 0 ≤ v) (rounds : fixed 8 v = k / 10 ^ 8) :
    (k - 1 / 2 : ℚ) / 10 ^ 8 ≤ v ∧ v < (k + 1 / 2 : ℚ) / 10 ^ 8 := by
  have unit : (10 : ℚ) ^ 8 ≠ 0 := by norm_num
  rw [fixed, div_left_inj' unit, Int.cast_inj] at rounds
  have scaled : 0 ≤ v * 10 ^ 8 := by positivity
  have low := (le_half_up_iff (k := k) scaled).mp rounds.ge
  have high := (not_congr (le_half_up_iff (k := k + 1) scaled)).mp (by omega)
  push_cast at low high
  constructor <;> linarith

/-- Where the middles round to one price and their mean keeps away from the half above it, the
mean is rounded to that price. -/
theorem agreed_mean {k : ℤ} {few many : ℕ} (left : Sized a few) (right : Sized b many)
    (lower : fixed 8 a = k / 10 ^ 8) (upper : fixed 8 b = k / 10 ^ 8)
    (away : (a + b) / 2 < (k + 1 / 2 : ℚ) / 10 ^ 8 - 3 / 4 / 10 ^ 18) :
    fixed 8 (bcdiv (bcadd a b 18) 2 18) = k / 10 ^ 8 := by
  obtain ⟨low, high⟩ := rounds_within left.nonneg lower
  obtain ⟨low', high'⟩ := rounds_within right.nonneg upper
  have near : |a - b| ≤ 1 := by
    rw [abs_le]
    constructor <;> linarith
  have nonneg : 0 ≤ a + b := add_nonneg left.nonneg right.nonneg
  have reached : k - 1 + 1 ≤ halfUp (fixed 18 (fixed 18 (a + b) / 2) * 10 ^ 8) := by
    rw [le_rounded_iff nonneg]
    push_cast
    linarith
  have passed : ¬k + 1 ≤ halfUp (fixed 18 (fixed 18 (a + b) / 2) * 10 ^ 8) := by
    rw [le_rounded_iff nonneg]
    linarith
  have same : halfUp (fixed 18 (fixed 18 (a + b) / 2) * 10 ^ 8) = k := by omega
  rw [near_mean_rounded left right near]
  generalize fixed 18 (fixed 18 (a + b) / 2) = twice at same
  rw [fixed, same]

end Agreed

section Backed
variable {v m : ℚ}

/-- A value of eight decimals inside the band deviates by no more than the threshold and a unit
of the eighteenth decimal. -/
theorem inside_band (grid : OnGrid 8 v) (other : OnGrid 8 m) (pos : 0 < m)
    (short : |v - m| * 10 ^ 8 < 10 ^ 64)
    (inside : exceedsBand v m ORACLE_DEVIATION_THRESHOLD 18 = false) :
    |v - m| ≤ (1 / 20 + 1 / 10 ^ 18) * m := by
  have diff : bcsub v m 18 = v - m := formatted_exact (grid.sub other) (by decide) short
  have size : (if bcsub v m 18 < 0 then bcmul (bcsub v m 18) (-1) 18 else bcsub v m 18) = |v - m| := by
    rw [diff]
    split
    · rename_i negative
      have flipped : OnGrid 8 ((v - m) * -1) := by
        obtain ⟨n, shape⟩ := grid.sub other
        exact ⟨-n, by rw [shape]; push_cast; ring⟩
      have short_flipped : |(v - m) * -1| * 10 ^ 8 < 10 ^ 64 := by
        rw [mul_neg_one, abs_neg]
        exact short
      rw [bcmul, formatted_exact flipped (by decide) short_flipped, abs_of_neg negative]
      ring
    · rename_i positive
      rw [abs_of_nonneg (not_lt.mp positive)]
  rw [exceedsBand, decide_eq_false_iff_not, not_lt, deviationFrom, size, bcdiv,
    if_neg pos.ne'] at inside
  have close := (abs_le.mp (formatted_error (|v - m| / m) 18)).1
  have ratio : 0 ≤ |v - m| / m := div_nonneg (abs_nonneg _) pos.le
  rw [abs_of_nonneg ratio] at close
  have bound : |v - m| / m ≤ 1 / 20 + 1 / 10 ^ 18 := by
    have tiny : digitError ≤ 1 / 10 ^ 20 := by
      unfold digitError
      norm_num
    have product : |v - m| / m * digitError ≤ |v - m| / m * (1 / 10 ^ 20) :=
      mul_le_mul_of_nonneg_left tiny ratio
    unfold ORACLE_DEVIATION_THRESHOLD at inside
    linarith
  calc |v - m| = |v - m| / m * m := by field_simp
    _ ≤ (1 / 20 + 1 / 10 ^ 18) * m := mul_le_mul_of_nonneg_right bound pos.le

variable {submissions : Submissions} {coinPair : String}

theorem fixed_bounded {q : ℚ} (nonneg : 0 ≤ q) (below : q ≤ 10 ^ 11) (places : ℕ) :
    0 ≤ fixed places q ∧ fixed places q ≤ 10 ^ 11 + 1 := by
  refine ⟨fixed_nonneg nonneg, ?_⟩
  have close := (abs_le.mp (fixed_error places q)).2
  have small : (1 : ℚ) / 2 / 10 ^ places ≤ 1 := by
    rw [div_le_one (by positivity)]
    have unit : (1 : ℚ) ≤ 10 ^ places := one_le_pow₀ (by norm_num)
    linarith
  linarith

/-- The price formed of an even set stays below eleven digits. -/
theorem code_median_bounded {vs : List ℚ} (filled : vs ≠ []) (priced : ∀ v ∈ vs, Priced v)
    (even : vs.length % 2 = 0) :
    OnGrid 8 (codeMedian vs) ∧ 0 ≤ codeMedian vs ∧ codeMedian vs ≤ 10 ^ 11 + 1 := by
  have lower := priced _ (lower_member filled)
  have upper := priced _ (upper_member filled)
  have lower_pos := lower.pos
  have upper_pos := upper.pos
  have sum : lowerMiddle vs + upperMiddle vs ≤ 10 ^ 11 := by
    linarith [lower.below, upper.below]
  obtain ⟨first_nonneg, first_below⟩ := fixed_bounded (by linarith) sum 18
  obtain ⟨second_nonneg, second_below⟩ :=
    fixed_bounded (q := fixed 18 (lowerMiddle vs + upperMiddle vs) / 2) (by linarith)
      (by linarith) 18
  rw [codeMedian, if_pos even, mean_rounded lower upper]
  refine ⟨on_grid_fixed 8 _, fixed_nonneg second_nonneg, ?_⟩
  have close := (abs_le.mp (fixed_error 18
    (fixed 18 (lowerMiddle vs + upperMiddle vs) / 2))).2
  have small : (1 : ℚ) / 2 / 10 ^ 18 ≤ 1 := by norm_num
  exact (fixed_bounded second_nonneg (by linarith) 8).2

/-- What the aggregate forms of an even set is in the band of both rounded middles. -/
theorem even_price_backed (canonical : CanonicalPrices submissions coinPair)
    (even : (values submissions coinPair).length % 2 = 0) {median : ℚ}
    (formed : unclamped submissions coinPair = some median) :
    |fixed 8 (lowerMiddle (values submissions coinPair)) - median| ≤
        (1 / 20 + 1 / 10 ^ 18) * median ∧
      |fixed 8 (upperMiddle (values submissions coinPair)) - median| ≤
        (1 / 20 + 1 / 10 ^ 18) * median := by
  obtain ⟨filled, rfl, pos, kept⟩ := unclamped_iff.mp formed
  have priced : ∀ v ∈ values submissions coinPair, Priced v := fun v => values_priced canonical
  obtain ⟨grid, nonneg, below⟩ := code_median_bounded filled priced even
  have inside : splitApart (values submissions coinPair)
      (codeMedian (values submissions coinPair)) = false := by
    cases apart : splitApart (values submissions coinPair)
        (codeMedian (values submissions coinPair)) with
    | false => rfl
    | true => exact absurd ⟨even, apart⟩ kept
  rw [splitApart, Bool.or_eq_false_iff] at inside
  have close {v : ℚ} (member : v ∈ values submissions coinPair) :
      |fixed 8 v - codeMedian (values submissions coinPair)| * 10 ^ 8 < 10 ^ 64 := by
    have one := priced v member
    obtain ⟨low, high⟩ := fixed_bounded one.pos.le (by linarith [one.below]) 8
    have gap : |fixed 8 v - codeMedian (values submissions coinPair)| ≤ 10 ^ 11 + 1 := by
      rw [abs_le]
      constructor <;> linarith
    linarith
  exact ⟨inside_band (on_grid_fixed 8 _) grid pos (close (lower_member filled)) inside.1,
    inside_band (on_grid_fixed 8 _) grid pos (close (upper_member filled)) inside.2⟩

end Backed

/-- Middles that round to one price, with a mean off the half above it, have that price. The
middles of an even set are in the band of the price that is formed of them, before the clamp. -/
theorem middles_agree :
    (∀ (values : List String) (k : ℤ), values.length % 2 = 0 →
      (∀ s ∈ values, isCanonicalText s = true ∧ 0 < bcnum s) → values ≠ [] →
      let lower := bcnum (values.getD (values.length / 2 - 1) "")
      let upper := bcnum (values.getD (values.length / 2) "")
      fixed 8 lower = k / 10 ^ 8 → fixed 8 upper = k / 10 ^ 8 →
      (lower + upper) / 2 < (k + 1 / 2 : ℚ) / 10 ^ 8 - 3 / 4 / 10 ^ 18 →
      medianOf values (values.length / 2) = k / 10 ^ 8) ∧
    ∀ (lastFinalized : Option ℚ) (submissions : Submissions) (coinPair : String) (price : ℚ),
      CanonicalPrices submissions coinPair → (values submissions coinPair).length % 2 = 0 →
      aggregate lastFinalized submissions coinPair = some price →
      ∃ median, price = clampToLastFinalized coinPair lastFinalized median ∧
        |fixed 8 (lowerMiddle (values submissions coinPair)) - median| ≤
          (1 / 20 + 1 / 10 ^ 18) * median ∧
        |fixed 8 (upperMiddle (values submissions coinPair)) - median| ≤
          (1 / 20 + 1 / 10 ^ 18) * median := by
  constructor
  · intro values k even canonical filled lower upper first second away
    have pos : 0 < values.length := List.length_pos_iff.mpr filled
    have sized {i : ℕ} (inside : i < values.length) : ∃ places, Sized (bcnum (values.getD i "")) places := by
      rw [List.getD_eq_getElem _ _ inside]
      exact canonical_sized (canonical _ (List.getElem_mem inside)).1
    obtain ⟨few, left⟩ := sized (show values.length / 2 - 1 < values.length by omega)
    obtain ⟨many, right⟩ := sized (show values.length / 2 < values.length by omega)
    rw [medianOf, if_pos even]
    exact agreed_mean left right first second away
  · intro lastFinalized submissions coinPair price canonical even published
    obtain ⟨median, formed, clamped⟩ := Option.map_eq_some_iff.mp published
    exact ⟨median, clamped.symm, even_price_backed canonical even formed⟩

section Samples

def nearby : List String := ["1.000000001", "1.000000002"]

def twin : String := "1.0000000049999999999"

def doubled : Submissions where
  entries := [offer "a" "200", offer "b" "200"]
  nodup := by decide

theorem doubled_middles : values doubled "BTC/USD" = [200, 200] ∧
    lowerMiddle (values doubled "BTC/USD") = 200 ∧
    upperMiddle (values doubled "BTC/USD") = 200 := by
  have two : values doubled "BTC/USD" = [200, 200] := by decide +kernel
  rw [two]
  exact ⟨rfl, by simpa using @lower_member [200, 200] (by simp),
    by simpa using @upper_member [200, 200] (by simp)⟩

theorem doubled_formed : unclamped doubled "BTC/USD" = some 200 := by
  obtain ⟨two, lower, upper⟩ := doubled_middles
  rw [unclamped_iff, codeMedian, splitApart, lower, upper, two]
  decide +kernel

theorem nearby_agree :
    medianOf nearby 1 = 1 ∧
    ∃ median, 200 = clampToLastFinalized "BTC/USD" none median ∧
      |fixed 8 (lowerMiddle (values doubled "BTC/USD")) - median| ≤
        (1 / 20 + 1 / 10 ^ 18) * median ∧
      |fixed 8 (upperMiddle (values doubled "BTC/USD")) - median| ≤
        (1 / 20 + 1 / 10 ^ 18) * median := by
  have published : aggregate none doubled "BTC/USD" = some 200 := by
    rw [aggregate, doubled_formed]
    rfl
  have even : (values doubled "BTC/USD").length % 2 = 0 := by
    rw [doubled_middles.1]
    rfl
  constructor
  · have formed := middles_agree.1 nearby 100000000 (by decide) (by decide +kernel) (by decide)
      (by decide +kernel) (by decide +kernel) (by decide +kernel)
    exact formed.trans (by norm_num)
  · exact middles_agree.2 none doubled "BTC/USD" 200 (by decide) even published

/-- Two equal middles are left by the two roundings at eighteen decimals, and the clamp publishes
a price far from both middles of an even set. -/
theorem middles_left :
    (isCanonicalText twin = true ∧ fixed 8 (bcnum twin) = 1 ∧
      medianOf [twin, twin] 1 = 100000001 / 10 ^ 8) ∧
    CanonicalPrices doubled "BTC/USD" ∧
    aggregate (some 100) doubled "BTC/USD" = some 125 ∧
    fixed 8 (lowerMiddle (values doubled "BTC/USD")) = 200 ∧
    exceedsBand 200 125 ORACLE_DEVIATION_THRESHOLD 18 = true := by
  refine ⟨⟨by decide, by decide +kernel, by decide +kernel⟩, by decide, ?_, ?_, by decide +kernel⟩
  · rw [aggregate, doubled_formed]
    decide +kernel
  · rw [doubled_middles.2.1]
    decide +kernel

end Samples

end XChainHub.Oracle.Consensus
