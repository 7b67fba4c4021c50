import XChainHub.Library.DecimalRounding

/-!
Rounding of exact rationals to binary numbers of 53 significant bits, ties to even, and
what it keeps of the bounds of its argument, and the decimal that such a number is written
as. Exponents are unbounded.
-/
namespace BinaryRounding
open DecimalRounding

def halfEven (q : ℚ) : ℤ :=
  if 2 * (q - ⌊q⌋) < 1 then ⌊q⌋
  else if 1 < 2 * (q - ⌊q⌋) then ⌊q⌋ + 1
  else if ⌊q⌋ % 2 = 0 then ⌊q⌋ else ⌊q⌋ + 1

/- The exponent of the last bit kept. -/
def lastBit (q : ℚ) : ℤ := Int.log 2 |q| - 52

def toDouble (q : ℚ) : ℚ :=
  if q = 0 then 0 else halfEven (q / 2 ^ lastBit q) * 2 ^ lastBit q

/- The rounding to the fewest digits, from digits on, that reads back as the same number;
   past the fuel no digit is missing. -/
def shortestFrom (q : ℚ) : ℕ → ℕ → ℚ
  | 0, digits => significant digits q
  | fuel + 1, digits =>
    if toDouble (significant digits q) = q then significant digits q
    else shortestFrom q fuel (digits + 1)

/- A number as it is written: seventeen digits always read back. -/
def shortest (q : ℚ) : ℚ := shortestFrom q 16 1

/- The sum of two numbers that are kept as they are written. -/
def numberSum (a b : ℚ) : ℚ := shortest (toDouble (toDouble a + toDouble b))

theorem floor_le_half_even (q : ℚ) : ⌊q⌋ ≤ halfEven q := by
  unfold halfEven
  split
  · exact le_refl _
  · split
    · omega
    · split <;> omega

/-- Rounding does not leave the binade of a positive number downwards. -/
theorem pow_le_double {q : ℚ} (pos : 0 < q) : (2 : ℚ) ^ Int.log 2 q ≤ toDouble q := by
  have unit : (0 : ℚ) < 2 ^ lastBit q := zpow_pos (by norm_num) _
  have leading : (2 : ℚ) ^ Int.log 2 q ≤ q := Int.zpow_log_le_self (by decide) pos
  have scaled : (2 : ℚ) ^ Int.log 2 q = (2 ^ 52 : ℤ) * 2 ^ lastBit q := by
    have exponent : Int.log 2 q = (52 : ℕ) + lastBit q := by
      unfold lastBit
      rw [abs_of_pos pos]
      omega
    rw [exponent, zpow_add₀ (by norm_num), zpow_natCast]
    norm_num
  have whole : (2 ^ 52 : ℤ) ≤ ⌊q / 2 ^ lastBit q⌋ := by
    rw [Int.le_floor, le_div_iff₀ unit, ← scaled]
    exact leading
  have kept : ((2 ^ 52 : ℤ) : ℚ) ≤ halfEven (q / 2 ^ lastBit q) := by
    exact_mod_cast whole.trans (floor_le_half_even _)
  rw [toDouble, if_neg pos.ne', scaled]
  exact mul_le_mul_of_nonneg_right kept unit.le

/-- A whole number whose last bit is not above the units is kept. -/
theorem double_of_fine {n : ℤ} (fine : lastBit n ≤ 0) : toDouble n = n := by
  by_cases zero : n = 0
  · simp [toDouble, zero]
  · have filled : (n : ℚ) ≠ 0 := by exact_mod_cast zero
    obtain ⟨bits, same⟩ : ∃ bits : ℕ, lastBit n = -(bits : ℤ) :=
      ⟨(-lastBit n).toNat, by omega⟩
    have unit : (0 : ℚ) < 2 ^ bits := by positivity
    have scaled : (n : ℚ) / 2 ^ lastBit n = ((n * 2 ^ bits : ℤ) : ℚ) := by
      rw [same, zpow_neg, zpow_natCast, div_inv_eq_mul]
      push_cast
      rfl
    have kept : halfEven (n / 2 ^ lastBit n) = n * 2 ^ bits := by
      rw [scaled, halfEven, Int.floor_intCast, if_pos (by simp)]
    rw [toDouble, if_neg filled, kept, same, zpow_neg, zpow_natCast]
    push_cast
    field_simp

theorem double_of_natural {n : ℕ} (small : n < 2 ^ 53) : toDouble n = n := by
  have fine : lastBit ((n : ℤ) : ℚ) ≤ 0 := by
    have bounded : Int.log 2 |((n : ℤ) : ℚ)| < 53 := by
      rcases Nat.eq_zero_or_pos n with rfl | positive
      · simp
      · have nonneg : |((n : ℤ) : ℚ)| = n := by simp
        rw [nonneg, Int.log_natCast]
        have size := Nat.log_lt_of_lt_pow (b := 2) (by omega) small
        exact_mod_cast size
    unfold lastBit
    omega
  have kept := double_of_fine fine
  exact_mod_cast kept

theorem pow_le_significant {q : ℚ} {digits : ℕ} (pos : 0 < q) (some_ : 0 < digits) :
    (10 : ℚ) ^ Int.log 10 q ≤ significant digits q := by
  have unit := zpow_pos_ten (lastPlace digits q)
  have leading : (10 : ℚ) ^ Int.log 10 q ≤ q := Int.zpow_log_le_self (by decide) pos
  have scaled : (10 : ℚ) ^ Int.log 10 q = (10 ^ (digits - 1) : ℤ) * 10 ^ lastPlace digits q := by
    have exponent : Int.log 10 q = ((digits - 1 : ℕ) : ℤ) + lastPlace digits q := by
      unfold lastPlace
      rw [abs_of_pos pos]
      omega
    rw [exponent, zpow_add₀ (by norm_num), zpow_natCast]
    norm_num
  have whole : ((10 ^ (digits - 1) : ℤ) : ℚ) ≤ q / 10 ^ lastPlace digits q := by
    rw [le_div_iff₀ unit, ← scaled]
    exact leading
  have kept : ((10 ^ (digits - 1) : ℤ) : ℚ) ≤ halfUp (q / 10 ^ lastPlace digits q) := by
    have back := half_up_mono (by positivity) whole
    rw [half_up_int] at back
    exact_mod_cast back
  rw [significant, if_neg pos.ne', scaled]
  exact mul_le_mul_of_nonneg_right kept unit.le

theorem pow_le_shortest {q : ℚ} (pos : 0 < q) : (10 : ℚ) ^ Int.log 10 q ≤ shortest q := by
  have all : ∀ fuel digits : ℕ, 0 < digits → (10 : ℚ) ^ Int.log 10 q ≤ shortestFrom q fuel digits := by
    intro fuel
    induction fuel with
    | zero =>
      intro digits some_
      exact pow_le_significant pos some_
    | succ fuel ih =>
      intro digits some_
      unfold shortestFrom
      split
      · exact pow_le_significant pos some_
      · exact ih (digits + 1) (Nat.succ_pos digits)
  exact all 16 1 Nat.one_pos

end BinaryRounding
