import Mathlib.Data.Int.Log
import Mathlib.Data.Rat.Floor

/-!
Decimal rounding of exact rationals: to a whole number with ties away from zero,
to a number of places and to a number of significant digits, with their errors
and the values they leave alone. Exponents are unbounded.
-/
namespace DecimalRounding

def halfUp (q : ℚ) : ℤ := if 0 ≤ q then ⌊q + 1 / 2⌋ else -⌊-q + 1 / 2⌋

def fixed (places : ℕ) (q : ℚ) : ℚ := halfUp (q * 10 ^ places) / 10 ^ places

/- The exponent of the last digit kept. -/
def lastPlace (digits : ℕ) (q : ℚ) : ℤ := Int.log 10 |q| + 1 - digits

def significant (digits : ℕ) (q : ℚ) : ℚ :=
  if q = 0 then 0 else halfUp (q / 10 ^ lastPlace digits q) * 10 ^ lastPlace digits q

/- A whole number of units in the last of the places. -/
def OnGrid (places : ℕ) (q : ℚ) : Prop := ∃ n : ℤ, q = n / 10 ^ places

theorem half_up_error (q : ℚ) : |(halfUp q : ℚ) - q| ≤ 1 / 2 := by
  unfold halfUp
  split
  · have low := Int.floor_le (q + 1 / 2)
    have high := Int.lt_floor_add_one (q + 1 / 2)
    rw [abs_le]
    constructor
    · linarith
    · linarith
  · have low := Int.floor_le (-q + 1 / 2)
    have high := Int.lt_floor_add_one (-q + 1 / 2)
    rw [abs_le]
    push_cast
    constructor
    · linarith
    · linarith

theorem half_up_int (n : ℤ) : halfUp n = n := by
  have close := half_up_error n
  rw [abs_le] at close
  have low : (halfUp n : ℚ) < n + 1 := by linarith
  have high : (n : ℚ) < halfUp n + 1 := by linarith
  have low' : halfUp n < n + 1 := by exact_mod_cast low
  have high' : n < halfUp n + 1 := by exact_mod_cast high
  omega

theorem half_up_nonneg {q : ℚ} (nonneg : 0 ≤ q) : 0 ≤ halfUp q := by
  unfold halfUp
  rw [if_pos nonneg]
  apply Int.floor_nonneg.mpr
  linarith

theorem half_up_nonpos {q : ℚ} (nonpos : q ≤ 0) : halfUp q ≤ 0 := by
  have close := half_up_error q
  rw [abs_le] at close
  have below : (halfUp q : ℚ) < 1 := by linarith
  have below' : halfUp q < 1 := by exact_mod_cast below
  omega

theorem half_up_mono {p q : ℚ} (nonneg : 0 ≤ p) (le : p ≤ q) : halfUp p ≤ halfUp q := by
  unfold halfUp
  rw [if_pos nonneg, if_pos (nonneg.trans le)]
  exact Int.floor_le_floor (by linarith)

/-- For a nonnegative number, rounding up to a whole number is passing its lower half. -/
theorem le_half_up_iff {q : ℚ} {k : ℤ} (nonneg : 0 ≤ q) : k ≤ halfUp q ↔ (k : ℚ) - 1 / 2 ≤ q := by
  unfold halfUp
  rw [if_pos nonneg, Int.le_floor]
  constructor
  · intro le
    linarith
  · intro le
    linarith

section Grid

theorem pow_pos_ten (places : ℕ) : (0 : ℚ) < 10 ^ places := by positivity

theorem on_grid_zero (places : ℕ) : OnGrid places 0 := ⟨0, by simp⟩

theorem OnGrid.add {places : ℕ} {a b : ℚ} (left : OnGrid places a) (right : OnGrid places b) :
    OnGrid places (a + b) := by
  obtain ⟨m, rfl⟩ := left
  obtain ⟨n, rfl⟩ := right
  exact ⟨m + n, by push_cast; ring⟩

theorem OnGrid.sub {places : ℕ} {a b : ℚ} (left : OnGrid places a) (right : OnGrid places b) :
    OnGrid places (a - b) := by
  obtain ⟨m, rfl⟩ := left
  obtain ⟨n, rfl⟩ := right
  exact ⟨m - n, by push_cast; ring⟩

theorem OnGrid.finer {few many : ℕ} {q : ℚ} (grid : OnGrid few q) (le : few ≤ many) :
    OnGrid many q := by
  obtain ⟨n, rfl⟩ := grid
  refine ⟨n * 10 ^ (many - few), ?_⟩
  have split : (10 : ℚ) ^ many = 10 ^ few * 10 ^ (many - few) := by
    rw [← pow_add, Nat.add_sub_cancel' le]
  have small := pow_pos_ten few
  have rest := pow_pos_ten (many - few)
  push_cast
  rw [split]
  field_simp

theorem on_grid_fixed (places : ℕ) (q : ℚ) : OnGrid places (fixed places q) := ⟨_, rfl⟩

theorem fixed_on_grid {places : ℕ} {q : ℚ} (grid : OnGrid places q) : fixed places q = q := by
  obtain ⟨n, rfl⟩ := grid
  have unit := pow_pos_ten places
  have whole : (n : ℚ) / 10 ^ places * 10 ^ places = n := by field_simp
  rw [fixed, whole, half_up_int]

theorem fixed_nonneg {places : ℕ} {q : ℚ} (nonneg : 0 ≤ q) : 0 ≤ fixed places q := by
  have unit := pow_pos_ten places
  have scaled : 0 ≤ q * 10 ^ places := by positivity
  have rounded : (0 : ℚ) ≤ halfUp (q * 10 ^ places) := by exact_mod_cast half_up_nonneg scaled
  unfold fixed
  positivity

theorem fixed_nonpos {places : ℕ} {q : ℚ} (nonpos : q ≤ 0) : fixed places q ≤ 0 := by
  have unit := pow_pos_ten places
  have scaled : q * 10 ^ places ≤ 0 := mul_nonpos_of_nonpos_of_nonneg nonpos unit.le
  have rounded : (halfUp (q * 10 ^ places) : ℚ) ≤ 0 := by exact_mod_cast half_up_nonpos scaled
  unfold fixed
  exact div_nonpos_of_nonpos_of_nonneg rounded unit.le

theorem fixed_error (places : ℕ) (q : ℚ) : |fixed places q - q| ≤ 1 / 2 / 10 ^ places := by
  have unit := pow_pos_ten places
  have close := half_up_error (q * 10 ^ places)
  have scaled : fixed places q - q =
      (halfUp (q * 10 ^ places) - q * 10 ^ places) / 10 ^ places := by
    unfold fixed
    field_simp
  rw [scaled, abs_div, abs_of_pos unit]
  exact div_le_div_of_nonneg_right close unit.le

end Grid

section Significant
variable {digits : ℕ}

theorem zpow_pos_ten (e : ℤ) : (0 : ℚ) < 10 ^ e := zpow_pos (by norm_num) e

theorem significant_nonneg {q : ℚ} (nonneg : 0 ≤ q) : 0 ≤ significant digits q := by
  unfold significant
  split
  · exact le_refl 0
  · have unit := zpow_pos_ten (lastPlace digits q)
    have scaled : 0 ≤ q / 10 ^ lastPlace digits q := by positivity
    have rounded : (0 : ℚ) ≤ halfUp (q / 10 ^ lastPlace digits q) := by
      exact_mod_cast half_up_nonneg scaled
    positivity

theorem significant_nonpos {q : ℚ} (nonpos : q ≤ 0) : significant digits q ≤ 0 := by
  unfold significant
  split
  · exact le_refl 0
  · have unit := zpow_pos_ten (lastPlace digits q)
    have scaled : q / 10 ^ lastPlace digits q ≤ 0 :=
      div_nonpos_of_nonpos_of_nonneg nonpos unit.le
    have rounded : (halfUp (q / 10 ^ lastPlace digits q) : ℚ) ≤ 0 := by
      exact_mod_cast half_up_nonpos scaled
    exact mul_nonpos_of_nonpos_of_nonneg rounded unit.le

/-- A kept digit short of the leading one is worth at most that much of the value. -/
theorem significant_error {q : ℚ} (pos : 0 < digits) :
    |significant digits q - q| ≤ |q| / 2 / 10 ^ (digits - 1) := by
  by_cases zero : q = 0
  · simp [significant, zero]
  · have size : 0 < |q| := abs_pos.mpr zero
    have unit := zpow_pos_ten (lastPlace digits q)
    have close := half_up_error (q / 10 ^ lastPlace digits q)
    have scaled : significant digits q - q =
        (halfUp (q / 10 ^ lastPlace digits q) - q / 10 ^ lastPlace digits q) *
          10 ^ lastPlace digits q := by
      unfold significant
      rw [if_neg zero]
      field_simp
    have leading : (10 : ℚ) ^ Int.log 10 |q| ≤ |q| := Int.zpow_log_le_self (by decide) size
    have last : (10 : ℚ) ^ lastPlace digits q = 10 ^ Int.log 10 |q| / 10 ^ (digits - 1) := by
      have exponent : lastPlace digits q = Int.log 10 |q| - ((digits - 1 : ℕ) : ℤ) := by
        unfold lastPlace
        omega
      rw [exponent, zpow_sub₀ (by norm_num), zpow_natCast]
    have place := pow_pos_ten (digits - 1)
    calc |significant digits q - q|
        = |(halfUp (q / 10 ^ lastPlace digits q) : ℚ) - q / 10 ^ lastPlace digits q| *
            10 ^ lastPlace digits q := by rw [scaled, abs_mul, abs_of_pos unit]
      _ ≤ 1 / 2 * 10 ^ lastPlace digits q := mul_le_mul_of_nonneg_right close unit.le
      _ = 1 / 2 * (10 ^ Int.log 10 |q| / 10 ^ (digits - 1)) := by rw [last]
      _ ≤ 1 / 2 * (|q| / 10 ^ (digits - 1)) := by
          apply mul_le_mul_of_nonneg_left _ (by norm_num)
          exact div_le_div_of_nonneg_right leading place.le
      _ = |q| / 2 / 10 ^ (digits - 1) := by ring

/-- A value with no more digits than are kept is left alone. -/
theorem significant_exact {q : ℚ} {places : ℕ} (grid : OnGrid places q)
    (short : |q| * 10 ^ places < 10 ^ digits) : significant digits q = q := by
  by_cases zero : q = 0
  · simp [significant, zero]
  · obtain ⟨n, shape⟩ := grid
    have size : 0 < |q| := abs_pos.mpr zero
    have leading : (10 : ℚ) ^ Int.log 10 |q| ≤ |q| := Int.zpow_log_le_self (by decide) size
    have unit := pow_pos_ten places
    have bound : Int.log 10 |q| < digits - places := by
      have below : (10 : ℚ) ^ Int.log 10 |q| < 10 ^ ((digits : ℤ) - places) := by
        rw [zpow_sub₀ (by norm_num), zpow_natCast, zpow_natCast, lt_div_iff₀ unit]
        exact lt_of_le_of_lt (mul_le_mul_of_nonneg_right leading unit.le) short
      exact (zpow_lt_zpow_iff_right₀ (by norm_num)).mp below
    have room : (places : ℤ) + lastPlace digits q ≤ 0 := by
      unfold lastPlace
      omega
    obtain ⟨k, gap⟩ := Int.eq_ofNat_of_zero_le (by omega : 0 ≤ -((places : ℤ) + lastPlace digits q))
    have last : (10 : ℚ) ^ lastPlace digits q = 1 / (10 ^ places * 10 ^ k) := by
      have exponent : lastPlace digits q = -((places + k : ℕ) : ℤ) := by
        push_cast
        omega
      rw [exponent, zpow_neg, zpow_natCast, pow_add, one_div]
    have whole : q / 10 ^ lastPlace digits q = ((n * 10 ^ k : ℤ) : ℚ) := by
      have scale := pow_pos_ten k
      rw [last, shape]
      push_cast
      field_simp
    have positive := zpow_pos_ten (lastPlace digits q)
    unfold significant
    rw [if_neg zero, whole, half_up_int, ← whole]
    field_simp

end Significant

end DecimalRounding
