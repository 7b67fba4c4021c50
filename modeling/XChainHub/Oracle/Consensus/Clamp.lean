import XChainHub.Lib.Bcmath
import XChainHub.Library.Approach

/-!
The per-round move clamp of oracle/consensus/aggregate.js and the bound in force for a
pair, and the walk of the clamped price over the rounds while the aggregate stays put.
-/
namespace XChainHub.Oracle.Consensus
open Bcmath DecimalRounding Approach

def ORACLE_MAX_CHANGE_PER_ROUND : ℚ := 1 / 4
def XCHAIN_PRICE_MAX_CHANGE_PER_ROUND : ℚ := 1 / 10
def PRICE_MAX : ℚ := 10000000000
def DERIVED_PAIRS : List String := ["XCHAIN/USD"]

def maxChangeForPair (coinPair : String) : ℚ :=
  if DERIVED_PAIRS.head? = some coinPair then XCHAIN_PRICE_MAX_CHANGE_PER_ROUND
  else ORACLE_MAX_CHANGE_PER_ROUND

/- last is none for a pair without a finalized price. -/
def clampToLastFinalized (coinPair : String) (last : Option ℚ) (price : ℚ) : ℚ :=
  match last with
  | none => price
  | some last =>
    if last ≤ 0 then price
    else
      let maxDelta := bcmul last (maxChangeForPair coinPair) 8
      let hi := bcadd last maxDelta 8
      let lo := bcsub last maxDelta 8
      if hi < price then fixed 8 hi
      else if price < lo then fixed 8 lo
      else price

/- The finalized prices while every round aggregates to the same price. -/
def walk (coinPair : String) (target start : ℚ) : ℕ → ℚ
  | 0 => start
  | k + 1 => clampToLastFinalized coinPair (some (walk coinPair target start k)) target

section Units
variable {coinPair : String} {n t : ℤ}

/- A whole number of the last published decimal. -/
def units (n : ℤ) : ℚ := (n : ℚ) / 10 ^ 8

theorem units_lt {m n : ℤ} : units m < units n ↔ m < n := by
  unfold units
  rw [div_lt_div_iff_of_pos_right (by norm_num)]
  exact Int.cast_lt

theorem units_pos : 0 < units n ↔ 0 < n := by
  have zero : units 0 = 0 := by simp [units]
  rw [← zero, units_lt]

theorem units_on_grid (n : ℤ) : OnGrid 8 (units n) := ⟨n, rfl⟩

theorem units_inj {m n : ℤ} : units m = units n ↔ m = n := by
  unfold units
  rw [div_left_inj' (by norm_num)]
  exact Int.cast_inj

/- The move that the bound allows, in units. -/
def room (pct : ℚ) (n : ℤ) : ℤ := halfUp (n * pct)

/- The bounds in force are hundredths below one. -/
theorem bound_cases (coinPair : String) :
    maxChangeForPair coinPair = 1 / 10 ∨ maxChangeForPair coinPair = 1 / 4 := by
  unfold maxChangeForPair XCHAIN_PRICE_MAX_CHANGE_PER_ROUND ORACLE_MAX_CHANGE_PER_ROUND
  split
  · exact Or.inl rfl
  · exact Or.inr rfl

theorem bound_range (coinPair : String) :
    0 < maxChangeForPair coinPair ∧ maxChangeForPair coinPair ≤ 1 / 4 ∧
      ∃ c : ℤ, maxChangeForPair coinPair = c / 10 ^ 2 := by
  rcases bound_cases coinPair with tenth | quarter
  · rw [tenth]
    exact ⟨by norm_num, by norm_num, 10, by norm_num⟩
  · rw [quarter]
    exact ⟨by norm_num, by norm_num, 25, by norm_num⟩

section Room
variable {pct : ℚ}

theorem room_nonneg (bound : 0 < pct) (pos : 0 < n) : 0 ≤ room pct n := by
  have value : (0 : ℚ) < n := by exact_mod_cast pos
  exact half_up_nonneg (by positivity)

theorem room_mono {m : ℤ} (bound : 0 < pct) (pos : 0 < m) (le : m ≤ n) :
    room pct m ≤ room pct n := by
  have value : (0 : ℚ) < m := by exact_mod_cast pos
  have more : (m : ℚ) ≤ n := by exact_mod_cast le
  exact half_up_mono (by positivity) (by nlinarith)

theorem room_pos_iff (bound : 0 < pct) (pos : 0 < n) :
    0 < room pct n ↔ 1 / 2 ≤ (n : ℚ) * pct := by
  have value : (0 : ℚ) < n := by exact_mod_cast pos
  have step := le_half_up_iff (q := n * pct) (k := 1) (by positivity)
  rw [room, ← Int.add_one_le_iff, zero_add, step]
  constructor
  · intro le
    push_cast at le
    linarith
  · intro le
    push_cast
    linarith

theorem room_lt (bound : 0 < pct) (most : pct ≤ 1 / 4) (pos : 0 < n) : room pct n < n := by
  have value : (0 : ℚ) < n := by exact_mod_cast pos
  by_contra large
  have step := (le_half_up_iff (q := n * pct) (k := n) (by positivity)).mp (not_lt.mp large)
  have one : (1 : ℚ) ≤ n := by exact_mod_cast pos
  nlinarith

/-- One unit more of the price is at most one unit more of room. -/
theorem room_succ (bound : 0 < pct) (most : pct ≤ 1 / 4) (pos : 0 < n) :
    room pct (n + 1) ≤ room pct n + 1 := by
  have value : (0 : ℚ) < n := by exact_mod_cast pos
  by_contra large
  have jump : room pct n + 2 ≤ room pct (n + 1) := by omega
  have upper := (le_half_up_iff (q := (n + 1 : ℤ) * pct) (by push_cast; positivity)).mp jump
  have lower : ¬(room pct n + 1 ≤ room pct n) := by omega
  have under : ¬(((room pct n + 1 : ℤ) : ℚ) - 1 / 2 ≤ n * pct) :=
    fun le => lower ((le_half_up_iff (by positivity)).mpr le)
  push_cast at upper under
  linarith

/-- What is left after a move down grows with the price. -/
theorem rest_mono {m : ℤ} (bound : 0 < pct) (most : pct ≤ 1 / 4) (pos : 0 < m) (le : m ≤ n) :
    m - room pct m ≤ n - room pct n := by
  obtain ⟨d, rfl⟩ : ∃ d : ℕ, n = m + d := ⟨(n - m).toNat, by omega⟩
  induction d with
  | zero => simp
  | succ d ih =>
    have step := room_succ bound most (show 0 < m + d by omega)
    have before := ih (by omega)
    push_cast at before ⊢
    rw [← add_assoc]
    omega

end Room
end Units

section Steps
variable {coinPair : String} {n t : ℤ}

theorem delta_units (pos : 0 < n) (small : n < 10 ^ 40) :
    bcmul (units n) (maxChangeForPair coinPair) 8 =
      units (room (maxChangeForPair coinPair) n) := by
  obtain ⟨bound, most, c, shape⟩ := bound_range coinPair
  have value : (0 : ℚ) < n := by exact_mod_cast pos
  have size : (n : ℚ) < 10 ^ 40 := by exact_mod_cast small
  have grid : OnGrid 10 (units n * maxChangeForPair coinPair) := by
    refine ⟨n * c, ?_⟩
    rw [shape, units]
    push_cast
    ring
  have short : |units n * maxChangeForPair coinPair| * 10 ^ 10 < 10 ^ 64 := by
    rw [abs_of_nonneg (by unfold units; positivity), units]
    have product : (n : ℚ) * maxChangeForPair coinPair ≤ 10 ^ 40 * (1 / 4) :=
      mul_le_mul size.le most bound.le (by positivity)
    have scaled : (n : ℚ) / 10 ^ 8 * maxChangeForPair coinPair * 10 ^ 10 =
        n * maxChangeForPair coinPair * 10 ^ 2 := by ring
    rw [scaled]
    linarith
  have back : units n * maxChangeForPair coinPair * 10 ^ 8 = n * maxChangeForPair coinPair := by
    unfold units
    field_simp
  rw [bcmul, formatted, significant_exact grid short, fixed, back]
  rfl

theorem formatted_units (nonneg : 0 ≤ n) (small : n < 10 ^ 41) :
    formatted (units n) 8 = units n := by
  have value : (0 : ℚ) ≤ n := by exact_mod_cast nonneg
  have size : (n : ℚ) < 10 ^ 41 := by exact_mod_cast small
  refine formatted_exact (units_on_grid n) (le_refl 8) ?_
  rw [abs_of_nonneg (by unfold units; positivity), units]
  have whole : (n : ℚ) / 10 ^ 8 * 10 ^ 8 = n := by field_simp
  rw [whole]
  linarith

/-- The clamp in units, at prices of any realistic size. -/
theorem clamp_units (pos : 0 < n) (small : n < 10 ^ 40) :
    clampToLastFinalized coinPair (some (units n)) (units t) =
      units (if n + room (maxChangeForPair coinPair) n < t then
          n + room (maxChangeForPair coinPair) n
        else if t < n - room (maxChangeForPair coinPair) n then
          n - room (maxChangeForPair coinPair) n
        else t) := by
  obtain ⟨bound, most, _⟩ := bound_range coinPair
  have nonneg := room_nonneg bound pos
  have less := room_lt bound most pos
  have hi : bcadd (units n) (units (room (maxChangeForPair coinPair) n)) 8 =
      units (n + room (maxChangeForPair coinPair) n) := by
    have sum : units n + units (room (maxChangeForPair coinPair) n) =
        units (n + room (maxChangeForPair coinPair) n) := by
      unfold units
      push_cast
      ring
    rw [bcadd, sum, formatted_units (by omega) (by omega)]
  have lo : bcsub (units n) (units (room (maxChangeForPair coinPair) n)) 8 =
      units (n - room (maxChangeForPair coinPair) n) := by
    have difference : units n - units (room (maxChangeForPair coinPair) n) =
        units (n - room (maxChangeForPair coinPair) n) := by
      unfold units
      push_cast
      ring
    rw [bcsub, difference, formatted_units (by omega) (by omega)]
  simp only [clampToLastFinalized, not_le.mpr (units_pos.mpr pos), if_false, delta_units pos small,
    hi, lo, units_lt, fixed_on_grid (units_on_grid _)]
  split
  · rfl
  · split <;> rfl

theorem on_units {q : ℚ} (grid : OnGrid 8 q) : q = units (halfUp (q * 10 ^ 8)) :=
  (fixed_on_grid grid).symm

/-- Far above every price the clamp still moves down and stays far above. -/
theorem clamp_far (far : 10 ^ 40 ≤ n) (low : t < 10 ^ 18) :
    ∃ m, clampToLastFinalized coinPair (some (units n)) (units t) = units m ∧
      10 ^ 39 ≤ m ∧ m < n := by
  obtain ⟨bound, most, _⟩ := bound_range coinPair
  have least : 1 / 10 ≤ maxChangeForPair coinPair := by
    rcases bound_cases coinPair with tenth | quarter
    · rw [tenth]
    · rw [quarter]
      norm_num
  have tiny : digitError ≤ 1 / 1000 ∧ 0 ≤ digitError := by
    unfold digitError
    constructor
    · norm_num
    · norm_num
  obtain ⟨x, price⟩ : ∃ x, x = units n := ⟨_, rfl⟩
  have large : (10 : ℚ) ^ 32 ≤ x := by
    have value : (10 : ℚ) ^ 40 ≤ n := by exact_mod_cast far
    rw [price, units, le_div_iff₀ (by norm_num)]
    linarith
  have target : units t ≤ 10 ^ 10 := by
    have value : (t : ℚ) ≤ 10 ^ 18 := by exact_mod_cast low.le
    rw [units, div_le_iff₀ (by norm_num)]
    linarith
  have near {q : ℚ} (positive : 0 ≤ q) :
      q * (999 / 1000) - 1 ≤ formatted q 8 ∧ formatted q 8 ≤ q * (1001 / 1000) + 1 := by
    have close := formatted_error q 8
    rw [abs_of_nonneg positive, abs_le] at close
    have scaled : q * digitError ≤ q * (1 / 1000) := mul_le_mul_of_nonneg_left tiny.1 positive
    constructor
    · linarith [close.1]
    · linarith [close.2]
  obtain ⟨delta, delta_shape⟩ : ∃ delta, delta = bcmul x (maxChangeForPair coinPair) 8 := ⟨_, rfl⟩
  have delta_near : x * (9 / 100) ≤ delta ∧ delta ≤ x * (3 / 10) := by
    have product : 0 ≤ x * maxChangeForPair coinPair := by positivity
    have rounded := near product
    have above : x * (1 / 10) ≤ x * maxChangeForPair coinPair :=
      mul_le_mul_of_nonneg_left least (by linarith)
    have below : x * maxChangeForPair coinPair ≤ x * (1 / 4) :=
      mul_le_mul_of_nonneg_left most (by linarith)
    rw [delta_shape, bcmul]
    constructor
    · linarith [rounded.1]
    · linarith [rounded.2]
  have hi := near (q := x + delta) (by linarith)
  have lo := near (q := x - delta) (by linarith)
  have beyond : ¬(bcadd x delta 8 < units t) := by
    rw [bcadd]
    linarith [hi.1]
  have under : units t < bcsub x delta 8 := by
    rw [bcsub]
    linarith [lo.1]
  have grid : OnGrid 8 (bcsub x delta 8) := on_grid_fixed _ _
  refine ⟨halfUp (bcsub x delta 8 * 10 ^ 8), ?_, ?_, ?_⟩
  · rw [← on_units grid]
    have positive : ¬(x ≤ 0) := by linarith
    rw [← price]
    simp only [clampToLastFinalized, positive, if_false, ← delta_shape, beyond, under, if_true,
      fixed_on_grid grid]
  · have floor : units (10 ^ 39) < units (halfUp (bcsub x delta 8 * 10 ^ 8)) := by
      rw [← on_units grid, bcsub]
      have size : units (10 ^ 39) = 10 ^ 31 := by
        unfold units
        norm_num
      rw [size]
      linarith [lo.1]
    exact (units_lt.mp floor).le
  · rw [← units_lt, ← on_units grid, ← price, bcsub]
    linarith [lo.2]

/- The step of the walk in units. -/
def stepUnits (coinPair : String) (t n : ℤ) : ℤ :=
  halfUp (clampToLastFinalized coinPair (some (units n)) (units t) * 10 ^ 8)

theorem clamp_step (coinPair : String) (t n : ℤ) :
    clampToLastFinalized coinPair (some (units n)) (units t) = units (stepUnits coinPair t n) := by
  refine on_units ?_
  unfold clampToLastFinalized
  dsimp only
  split
  · exact units_on_grid t
  · split
    · exact on_grid_fixed _ _
    · split
      · exact on_grid_fixed _ _
      · exact units_on_grid t

theorem walk_units (coinPair : String) (t n : ℤ) (k : ℕ) :
    walk coinPair (units t) (units n) k = units ((stepUnits coinPair t)^[k] n) := by
  induction k with
  | zero => rfl
  | succ k ih => rw [walk, ih, clamp_step, Function.iterate_succ_apply']

/- All that one step does at a positive price. -/
structure StepLaw (coinPair : String) (t n next : ℤ) : Prop where
  up : n ≤ t → n ≤ next ∧ next ≤ t
  down : t ≤ n → t ≤ next ∧ next ≤ n
  rises : n < t → (n < next ↔ 0 < room (maxChangeForPair coinPair) n)
  falls : t < n → 0 < room (maxChangeForPair coinPair) n → next < n
  rests : t < n → n < 10 ^ 40 → n - room (maxChangeForPair coinPair) n ≤ next
  far : t < n → 10 ^ 40 ≤ n → 10 ^ 39 ≤ next

theorem step_law (pos : 0 < n) (low : t < 10 ^ 18) :
    StepLaw coinPair t n (stepUnits coinPair t n) := by
  obtain ⟨bound, most, _⟩ := bound_range coinPair
  have nonneg := room_nonneg bound pos
  by_cases small : n < 10 ^ 40
  · have here := @clamp_units coinPair _ t pos small
    rw [clamp_step, units_inj] at here
    rw [here]
    constructor
    case far => omega
    all_goals
      intros
      split
      · omega
      · split <;> omega
  · obtain ⟨m, here, floor, less⟩ := @clamp_far coinPair _ _ (not_lt.mp small) low
    rw [clamp_step, units_inj] at here
    rw [here]
    constructor <;> intros <;> omega

end Steps

section Walks
variable {coinPair : String} {n t : ℤ}

/-- The lowest price with room, less one unit, is a floor of every move down to below it. -/
theorem floor_trapped (low : t < 10 ^ 18) (above : t < n)
    (stuck : room (maxChangeForPair coinPair) (t + 1) = 0) (pos : 0 < t) (k : ℕ) :
    t < (stepUnits coinPair t)^[k] n := by
  obtain ⟨bound, most, _⟩ := bound_range coinPair
  refine trapped (P := fun m => t < m) ?_ above k
  intro m higher
  have law := @step_law coinPair _ _ (show 0 < m by omega) low
  by_cases small : m < 10 ^ 40
  · have rest := law.rests higher small
    have mono := rest_mono bound most (show 0 < t + 1 by omega) (show t + 1 ≤ m by omega)
    omega
  · have far := law.far higher (not_lt.mp small)
    omega

theorem rises_to (low : t < 10 ^ 18) (pos : 0 < n) (below : n < t)
    (moves : 0 < room (maxChangeForPair coinPair) n) :
    ∃ k, (stepUnits coinPair t)^[k] n = t := by
  obtain ⟨bound, _⟩ := bound_range coinPair
  refine climbs ?_ below.le
  intro m from_ upto
  have law := @step_law coinPair _ _ (show 0 < m by omega) low
  have more := room_mono bound pos from_
  exact ⟨(law.rises upto).mpr (by omega), (law.up upto.le).2⟩

theorem stays_at (low : t < 10 ^ 18) (pos : 0 < n) (below : n < t)
    (stuck : ¬(0 < room (maxChangeForPair coinPair) n)) (k : ℕ) :
    (stepUnits coinPair t)^[k] n = n := by
  refine trapped (P := fun m => m = n) ?_ rfl k
  rintro m rfl
  have law := @step_law coinPair _ _ pos low
  have still := mt (law.rises below).mp stuck
  have up := (law.up below.le).1
  omega

theorem falls_to (low : t < 10 ^ 18) (pos : 0 < t) (above : t ≤ n)
    (moves : 0 < room (maxChangeForPair coinPair) (t + 1)) :
    ∃ k, (stepUnits coinPair t)^[k] n = t := by
  obtain ⟨bound, _⟩ := bound_range coinPair
  refine descends ?_ above
  intro m higher
  have law := @step_law coinPair _ _ (show 0 < m by omega) low
  have more := room_mono bound (show 0 < t + 1 by omega) (show t + 1 ≤ m by omega)
  exact ⟨(law.down higher.le).1, law.falls higher (by omega)⟩

/- A sustained move is let through: the walk keeps positive, goes towards the target and no
   further, and gets there. -/
structure LetThrough (coinPair : String) (start target : ℚ) : Prop where
  positive : ∀ k, 0 < walk coinPair target start k
  up : start ≤ target → ∀ k, walk coinPair target start k ≤ walk coinPair target start (k + 1) ∧
    walk coinPair target start (k + 1) ≤ target
  down : target ≤ start → ∀ k, walk coinPair target start (k + 1) ≤ walk coinPair target start k ∧
    target ≤ walk coinPair target start (k + 1)
  arrives : ∃ k, walk coinPair target start k = target

theorem walk_between (low : t < 10 ^ 18) (pos : 0 < n) (posT : 0 < t) (k : ℕ) :
    (n ≤ t → n ≤ (stepUnits coinPair t)^[k] n ∧ (stepUnits coinPair t)^[k] n ≤ t) ∧
    (t ≤ n → t ≤ (stepUnits coinPair t)^[k] n ∧ (stepUnits coinPair t)^[k] n ≤ n) := by
  constructor
  · intro below
    refine trapped (P := fun m => n ≤ m ∧ m ≤ t) ?_ ⟨le_refl n, below⟩ k
    rintro m ⟨from_, upto⟩
    have law := @step_law coinPair _ _ (show 0 < m by omega) low
    have next := law.up upto
    exact ⟨by omega, next.2⟩
  · intro above
    refine trapped (P := fun m => t ≤ m ∧ m ≤ n) ?_ ⟨above, le_refl n⟩ k
    rintro m ⟨from_, upto⟩
    have law := @step_law coinPair _ _ (show 0 < m by omega) low
    have next := law.down from_
    exact ⟨next.1, by omega⟩

/-- The clamp lets a sustained move through exactly if it is none, or goes up from a price whose
    bound is at least half a unit of the last decimal, or goes down to one below such a price. -/
theorem sustained_move_iff (coinPair : String) (start target : ℚ) (gridS : OnGrid 8 start)
    (posS : 0 < start) (gridT : OnGrid 8 target) (posT : 0 < target) (below : target < PRICE_MAX) :
    LetThrough coinPair start target ↔
      target = start ∨
      (start < target ∧ 1 / 2 / 10 ^ 8 ≤ start * maxChangeForPair coinPair) ∨
      (target < start ∧
        1 / 2 / 10 ^ 8 ≤ (target + 1 / 10 ^ 8) * maxChangeForPair coinPair) := by
  obtain ⟨n, rfl⟩ := gridS
  obtain ⟨t, rfl⟩ := gridT
  change 0 < units n at posS
  change 0 < units t at posT
  obtain ⟨bound, _⟩ := bound_range coinPair
  have pos := units_pos.mp posS
  have pos' := units_pos.mp posT
  have low : t < 10 ^ 18 := by
    have size : units (10 ^ 18) = PRICE_MAX := by
      unfold units PRICE_MAX
      norm_num
    exact units_lt.mp (size ▸ below)
  have half {m : ℤ} (positive : 0 < m) :
      1 / 2 / 10 ^ 8 ≤ units m * maxChangeForPair coinPair ↔
        0 < room (maxChangeForPair coinPair) m := by
    rw [room_pos_iff bound positive, units, div_mul_eq_mul_div]
    exact div_le_div_iff_of_pos_right (by norm_num)
  have next : units t + 1 / 10 ^ 8 = units (t + 1) := by
    unfold units
    push_cast
    ring
  change LetThrough coinPair (units n) (units t) ↔ units t = units n ∨
    (units n < units t ∧ 1 / 2 / 10 ^ 8 ≤ units n * maxChangeForPair coinPair) ∨
    (units t < units n ∧ 1 / 2 / 10 ^ 8 ≤ (units t + 1 / 10 ^ 8) * maxChangeForPair coinPair)
  rw [next, units_inj, units_lt, units_lt, half pos, half (show 0 < t + 1 by omega)]
  constructor
  · rintro ⟨_, _, _, k, there⟩
    rw [walk_units, units_inj] at there
    rcases lt_trichotomy n t with up | same | down
    · refine Or.inr (Or.inl ⟨up, ?_⟩)
      by_contra stuck
      rw [stays_at low pos up stuck k] at there
      omega
    · exact Or.inl same.symm
    · refine Or.inr (Or.inr ⟨down, ?_⟩)
      by_contra stuck
      have none := room_nonneg bound (show 0 < t + 1 by omega)
      have trap := floor_trapped low down (show room (maxChangeForPair coinPair) (t + 1) = 0 by omega)
        pos' k
      omega
  · intro moves
    have le_units {a b : ℤ} : units a ≤ units b ↔ a ≤ b := by
      rw [← not_lt, units_lt, not_lt]
    have arrives : ∃ k, (stepUnits coinPair t)^[k] n = t := by
      rcases moves with same | ⟨up, moves⟩ | ⟨down, moves⟩
      · exact ⟨0, same.symm⟩
      · exact rises_to low pos up moves
      · exact falls_to low pos' down.le moves
    constructor
    case positive =>
      intro k
      rw [walk_units, units_pos]
      rcases le_total n t with up | down
      · have := (@walk_between coinPair _ _ low pos pos' k).1 up
        omega
      · have := (@walk_between coinPair _ _ low pos pos' k).2 down
        omega
    case up =>
      intro up k
      rw [le_units] at up
      have here := (@walk_between coinPair _ _ low pos pos' k).1 up
      have law := @step_law coinPair _ _ (show 0 < (stepUnits coinPair t)^[k] n by omega) low
      rw [walk_units, walk_units, Function.iterate_succ_apply', le_units, le_units]
      exact law.up here.2
    case down =>
      intro down k
      rw [le_units] at down
      have here := (@walk_between coinPair _ _ low pos pos' k).2 down
      have law := @step_law coinPair _ _ (show 0 < (stepUnits coinPair t)^[k] n by omega) low
      rw [walk_units, walk_units, Function.iterate_succ_apply', le_units, le_units]
      exact (law.down here.1).symm
    case arrives =>
      obtain ⟨k, there⟩ := arrives
      exact ⟨k, by rw [walk_units, there]⟩

/-- A derived pair climbs from five units, and does not come down to three. -/
theorem derived_pair_moves :
    LetThrough "XCHAIN/USD" (5 / 10 ^ 8) (1000 / 10 ^ 8) ∧
      ¬LetThrough "XCHAIN/USD" (1000 / 10 ^ 8) (3 / 10 ^ 8) := by
  have pct : maxChangeForPair "XCHAIN/USD" = 1 / 10 := by decide +kernel
  constructor
  · refine (sustained_move_iff "XCHAIN/USD" (5 / 10 ^ 8) (1000 / 10 ^ 8) ⟨5, by norm_num⟩
      (by norm_num) ⟨1000, by norm_num⟩ (by norm_num) (by norm_num [PRICE_MAX])).mpr ?_
    rw [pct]
    norm_num
  · rw [sustained_move_iff "XCHAIN/USD" (1000 / 10 ^ 8) (3 / 10 ^ 8) ⟨1000, by norm_num⟩
      (by norm_num) ⟨3, by norm_num⟩ (by norm_num) (by norm_num [PRICE_MAX]), pct]
    norm_num

/-- The first unit of a price never leaves its place. -/
theorem first_unit_stuck :
    OnGrid 8 (1 / 10 ^ 8) ∧ OnGrid 8 (2 / 10 ^ 8) ∧ (2 : ℚ) / 10 ^ 8 < PRICE_MAX ∧
      ¬LetThrough "BTC/USD" (1 / 10 ^ 8) (2 / 10 ^ 8) := by
  refine ⟨⟨1, by norm_num⟩, ⟨2, by norm_num⟩, by norm_num [PRICE_MAX], ?_⟩
  intro through
  obtain ⟨k, there⟩ := through.arrives
  have stay : ∀ k, walk "BTC/USD" (2 / 10 ^ 8) (1 / 10 ^ 8) k = 1 / 10 ^ 8 := by
    intro k
    induction k with
    | zero => rfl
    | succ k ih =>
      rw [walk, ih]
      have unit : (1 : ℚ) / 10 ^ 8 = units 1 := by
        unfold units
        norm_num
      have two : (2 : ℚ) / 10 ^ 8 = units 2 := by
        unfold units
        norm_num
      have pct : maxChangeForPair "BTC/USD" = 1 / 4 := by decide +kernel
      have none : room (1 / 4) 1 = 0 := by decide +kernel
      rw [unit, two, clamp_units (by decide) (by decide), pct, none]
      rfl
  rw [stay k] at there
  norm_num at there

end Walks

end XChainHub.Oracle.Consensus
