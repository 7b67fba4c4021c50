import XChainHub.Oracle.Consensus.Aggregate

/-!
The aggregate as a function of the values. The scale-18 sum and quotient of an even set
round before the price does, and can carry a mean just under a half up to the next price;
everywhere else the published price is the rounded median of one value a sender.
-/
namespace XChainHub.Oracle.Consensus
open Bcmath DecimalRounding OrderStatistics

section Sorted
variable {values : List String}

def lowerMiddle (values : List ℚ) : ℚ :=
  (values.mergeSort (· ≤ ·)).getD (values.length / 2 - 1) 0

def upperMiddle (values : List ℚ) : ℚ := (values.mergeSort (· ≤ ·)).getD (values.length / 2) 0

theorem median_middles (values : List ℚ) :
    median values =
      if values.length % 2 = 0 then (lowerMiddle values + upperMiddle values) / 2
      else upperMiddle values := by
  rw [median, middle, List.length_mergeSort, lowerMiddle, upperMiddle]

/-- The exact order of the spellings sorts the numbers they stand for. -/
theorem sorted_numbers (values : List String) :
    (values.map bcnum).mergeSort (· ≤ ·) = (values.mergeSort notAfter).map bcnum := by
  have order : ((values.mergeSort notAfter).map bcnum).Pairwise (· ≤ ·) := by
    rw [List.pairwise_map]
    apply (sorted_values values).imp
    intro a b after
    simp only [notAfter, Bool.or_eq_true, Bool.and_eq_true, decide_eq_true_eq] at after
    rcases after with less | ⟨same, _⟩
    · exact less.le
    · exact same.le
  apply ((List.mergeSort_perm _ _).trans _).eq_of_pairwise
  · intro a b _ _ first second
    exact le_antisymm first second
  · exact merge_sort_sorted _
  · exact order
  · exact ((List.mergeSort_perm values notAfter).map bcnum).symm

theorem trim_slice (filled : values ≠ []) : ∃ t, 2 * t < values.length ∧
    trimPairValues values =
      ((values.mergeSort notAfter).take (values.length - t)).drop t := by
  have pos : 0 < values.length := List.length_pos_iff.mpr filled
  unfold trimPairValues
  simp only [List.length_mergeSort]
  by_cases cut : 0 < trimCount values.length ∧ 2 * trimCount values.length < values.length
  · exact ⟨trimCount values.length, cut.2, if_pos cut⟩
  · refine ⟨0, pos, ?_⟩
    rw [if_neg cut, List.drop_zero, Nat.sub_zero, List.take_of_length_le]
    rw [List.length_mergeSort]

/-- The trim is symmetric, so the middles are those of all the values. -/
theorem trim_keeps_middles (filled : values ≠ []) :
    trimPairValues values ≠ [] ∧
    (trimPairValues values).length % 2 = values.length % 2 ∧
    bcnum ((trimPairValues values).getD ((trimPairValues values).length / 2) "") =
      upperMiddle (values.map bcnum) ∧
    (values.length % 2 = 0 →
      bcnum ((trimPairValues values).getD ((trimPairValues values).length / 2 - 1) "") =
        lowerMiddle (values.map bcnum)) := by
  obtain ⟨t, few, shape⟩ := trim_slice filled
  have length : (trimPairValues values).length = values.length - 2 * t := by
    rw [shape, List.length_drop, List.length_take, List.length_mergeSort]
    omega
  have empty : bcnum "" = 0 := by decide
  have place {j : ℕ} (inside : t + j < values.length - t) :
      bcnum ((trimPairValues values).getD j "") =
        ((values.map bcnum).mergeSort (· ≤ ·)).getD (t + j) 0 := by
    have kept := getD_slice (values.mergeSort notAfter) "" (t := t) (j := j)
      (by rw [List.length_mergeSort]; exact inside)
    rw [List.length_mergeSort] at kept
    rw [shape, kept, sorted_numbers, ← empty, List.getD_map]
  refine ⟨?_, ?_, ?_, ?_⟩
  · intro none
    rw [none, List.length_nil] at length
    omega
  · omega
  · rw [length, place (by omega), upperMiddle, List.length_map]
    congr 1
    omega
  · intro even
    rw [length, place (by omega), lowerMiddle, List.length_map]
    congr 1
    omega

end Sorted

section Published

/- What the code's two roundings make of the middles. -/
def codeMedian (values : List ℚ) : ℚ :=
  if values.length % 2 = 0 then
    fixed 8 (bcdiv (bcadd (lowerMiddle values) (upperMiddle values) 18) 2 18)
  else fixed 8 (upperMiddle values)

def splitApart (values : List ℚ) (price : ℚ) : Bool :=
  exceedsBand (fixed 8 (lowerMiddle values)) price ORACLE_DEVIATION_THRESHOLD 18 ||
    exceedsBand (fixed 8 (upperMiddle values)) price ORACLE_DEVIATION_THRESHOLD 18

/- One value a sender. -/
def values (submissions : Submissions) (coinPair : String) : List ℚ :=
  (collectPairValues submissions coinPair).map bcnum

/-- The aggregate reads nothing but the numbers submitted. -/
theorem unclamped_iff {submissions : Submissions} {coinPair : String} {price : ℚ} :
    unclamped submissions coinPair = some price ↔
      values submissions coinPair ≠ [] ∧ codeMedian (values submissions coinPair) = price ∧
        0 < price ∧ ¬((values submissions coinPair).length % 2 = 0 ∧
          splitApart (values submissions coinPair) price = true) := by
  unfold unclamped values
  generalize collectPairValues submissions coinPair = texts
  by_cases filled : texts = []
  · simp [filled]
  obtain ⟨left, parity, upper, lower⟩ := trim_keeps_middles filled
  have some_left : (trimPairValues texts).length ≠ 0 := by
    rw [Ne, List.length_eq_zero_iff]
    exact left
  have median : medianOf (trimPairValues texts) ((trimPairValues texts).length / 2) =
      codeMedian (texts.map bcnum) := by
    unfold medianOf codeMedian
    rw [parity, List.length_map, upper]
    by_cases even : texts.length % 2 = 0
    · rw [if_pos even, if_pos even, lower even]
    · rw [if_neg even, if_neg even]
  have split (even : texts.length % 2 = 0) (price : ℚ) :
      evenSplitRejected (trimPairValues texts) ((trimPairValues texts).length / 2) price =
        splitApart (texts.map bcnum) price := by
    unfold evenSplitRejected splitApart
    rw [upper, lower even]
  dsimp only
  rw [if_neg (by simpa using filled), if_neg some_left, median, parity]
  have mapped : texts.map bcnum ≠ [] := by simpa using filled
  by_cases low : codeMedian (texts.map bcnum) ≤ 0
  · rw [if_pos low]
    constructor
    · intro none
      cases none
    · rintro ⟨_, rfl, pos, _⟩
      exact absurd low (not_le.mpr pos)
  rw [if_neg low, List.length_map]
  by_cases even : texts.length % 2 = 0
  · rw [split even]
    by_cases apart : splitApart (texts.map bcnum) (codeMedian (texts.map bcnum)) = true
    · simp only [even, apart, decide_true, Bool.and_self, if_true]
      constructor
      · intro none
        cases none
      · rintro ⟨_, rfl, _, kept⟩
        exact absurd ⟨trivial, apart⟩ kept
    · simp only [even, apart, decide_true, Bool.and_false, Bool.false_eq_true, if_false,
        Option.some.injEq]
      constructor
      · rintro rfl
        exact ⟨mapped, rfl, not_le.mp low, fun both => apart both.2⟩
      · rintro ⟨_, same, _⟩
        exact same
  · simp only [even, decide_false, Bool.false_and, Bool.false_eq_true, if_false,
      Option.some.injEq]
    constructor
    · rintro rfl
      exact ⟨mapped, rfl, not_le.mp low, fun both => both.1⟩
    · rintro ⟨_, same, _⟩
      exact same

end Published

section Rounding
variable {sum : ℚ} {k : ℤ}

/-- The three half-up roundings reach the next price three quarters of a place of the
    second early. -/
theorem le_rounded_iff (nonneg : 0 ≤ sum) :
    k + 1 ≤ halfUp (fixed 18 (fixed 18 sum / 2) * 10 ^ 8) ↔
      (k + 1 / 2 : ℚ) / 10 ^ 8 - 3 / 4 / 10 ^ 18 ≤ sum / 2 := by
  obtain ⟨n, added⟩ : ∃ n, n = halfUp (sum * 10 ^ 18) := ⟨_, rfl⟩
  obtain ⟨m, halved⟩ : ∃ m, m = halfUp ((n : ℚ) / 2) := ⟨_, rfl⟩
  have n_nonneg : 0 ≤ n := added ▸ half_up_nonneg (by positivity)
  have half_nonneg : (0 : ℚ) ≤ n / 2 := by
    have cast : (0 : ℚ) ≤ n := by exact_mod_cast n_nonneg
    linarith
  have m_nonneg : (0 : ℚ) ≤ m := by
    have cast := half_up_nonneg half_nonneg
    rw [← halved] at cast
    exact_mod_cast cast
  have twice : fixed 18 (fixed 18 sum / 2) = m / 10 ^ 18 := by
    have scaled : (n : ℚ) / 10 ^ 18 / 2 * 10 ^ 18 = n / 2 := by ring
    rw [fixed, fixed, ← added, scaled, ← halved]
  have third : k + 1 ≤ halfUp ((m : ℚ) / 10 ^ 18 * 10 ^ 8) ↔ (2 * k + 1) * (5 * 10 ^ 9) ≤ m := by
    rw [le_half_up_iff (by positivity)]
    have cast : ((2 * k + 1) * (5 * 10 ^ 9) ≤ m) ↔
        (2 * (k : ℚ) + 1) * (5 * 10 ^ 9) ≤ m := by exact_mod_cast Iff.rfl
    rw [cast]
    push_cast
    constructor
    · intro le
      linarith
    · intro le
      linarith
  have second : (2 * k + 1) * (5 * 10 ^ 9) ≤ m ↔ (2 * k + 1) * 10 ^ 10 - 1 ≤ n := by
    rw [halved, le_half_up_iff half_nonneg]
    have cast : ((2 * k + 1) * 10 ^ 10 - 1 ≤ n) ↔ (2 * (k : ℚ) + 1) * 10 ^ 10 - 1 ≤ n := by
      exact_mod_cast Iff.rfl
    rw [cast]
    push_cast
    constructor
    · intro le
      linarith
    · intro le
      linarith
  have first : (2 * k + 1) * 10 ^ 10 - 1 ≤ n ↔
      (k + 1 / 2 : ℚ) / 10 ^ 8 - 3 / 4 / 10 ^ 18 ≤ sum / 2 := by
    rw [added, le_half_up_iff (by positivity)]
    push_cast
    constructor
    · intro le
      linarith
    · intro le
      linarith
  rw [twice, third, second, first]

theorem le_exact_iff (nonneg : 0 ≤ sum) :
    k + 1 ≤ halfUp (sum / 2 * 10 ^ 8) ↔ (k + 1 / 2 : ℚ) / 10 ^ 8 ≤ sum / 2 := by
  rw [le_half_up_iff (by positivity)]
  push_cast
  constructor
  · intro le
    linarith
  · intro le
    linarith

/-- The roundings differ exactly under the halves, and there by one unit. -/
theorem rounded_differs_iff (nonneg : 0 ≤ sum) :
    fixed 8 (fixed 18 (fixed 18 sum / 2)) ≠ fixed 8 (sum / 2) ↔
      ∃ k : ℤ, (k + 1 / 2 : ℚ) / 10 ^ 8 - 3 / 4 / 10 ^ 18 ≤ sum / 2 ∧
        sum / 2 < (k + 1 / 2 : ℚ) / 10 ^ 8 := by
  have unit : (10 : ℚ) ^ 8 ≠ 0 := by norm_num
  constructor
  · intro differ
    obtain ⟨k, exact⟩ : ∃ k, k = halfUp (sum / 2 * 10 ^ 8) := ⟨_, rfl⟩
    have under : sum / 2 < (k + 1 / 2 : ℚ) / 10 ^ 8 := by
      by_contra above
      have more := (le_exact_iff nonneg).mpr (not_lt.mp above)
      omega
    refine ⟨k, ?_, under⟩
    by_contra low
    have less := (not_congr (le_rounded_iff nonneg)).mpr low
    have more : k - 1 + 1 ≤ halfUp (fixed 18 (fixed 18 sum / 2) * 10 ^ 8) := by
      rw [le_rounded_iff nonneg]
      have reached := (le_exact_iff (k := k - 1) nonneg).mp (by omega)
      push_cast at reached ⊢
      linarith
    have same : halfUp (fixed 18 (fixed 18 sum / 2) * 10 ^ 8) = halfUp (sum / 2 * 10 ^ 8) := by
      omega
    apply differ
    generalize fixed 18 (fixed 18 sum / 2) = twice at same
    rw [fixed, fixed, same]
  · rintro ⟨k, low, high⟩ same
    have more := (le_rounded_iff nonneg).mpr low
    have less := (not_congr (le_exact_iff nonneg)).mpr (not_le.mpr high)
    generalize fixed 18 (fixed 18 sum / 2) = twice at same more
    rw [fixed, fixed, div_left_inj' unit, Int.cast_inj] at same
    omega

/-- Under the half the code publishes the price above it. -/
theorem rounded_up (nonneg : 0 ≤ sum) (low : (k + 1 / 2 : ℚ) / 10 ^ 8 - 3 / 4 / 10 ^ 18 ≤ sum / 2)
    (high : sum / 2 < (k + 1 / 2 : ℚ) / 10 ^ 8) :
    fixed 8 (fixed 18 (fixed 18 sum / 2)) = (k + 1) / 10 ^ 8 := by
  have reached := (le_rounded_iff nonneg).mpr low
  have passed : ¬k + 1 + 1 ≤ halfUp (fixed 18 (fixed 18 sum / 2) * 10 ^ 8) := by
    rw [le_rounded_iff nonneg]
    push_cast
    linarith
  have same : halfUp (fixed 18 (fixed 18 sum / 2) * 10 ^ 8) = k + 1 := by omega
  generalize fixed 18 (fixed 18 sum / 2) = twice at same
  rw [fixed, same]
  push_cast
  rfl

end Rounding
end XChainHub.Oracle.Consensus
