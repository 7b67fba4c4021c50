import XChainHub.Oracle.Consensus.Median

/-!
What the aggregate of a pair promises over canonical submissions: no dependence on the
arrival order, the rounded plain median, and a place between honest values while fewer
than half of the senders are adversarial. One narrow kind of even set breaks it.
-/
namespace XChainHub.Oracle.Consensus
open Bcmath DecimalRounding OrderStatistics

section Priced
variable {submissions : Submissions} {coinPair : String} {vs : List ℚ} {v : ℚ}

def CanonicalPrices (submissions : Submissions) (coinPair : String) : Prop :=
  ∀ e ∈ submissions.entries, ∀ p ∈ e.2.prices.getD [],
    p.coinPair = coinPair → isCanonicalText p.price = true

instance (submissions : Submissions) (coinPair : String) :
    Decidable (CanonicalPrices submissions coinPair) :=
  inferInstanceAs (Decidable (∀ e ∈ submissions.entries, ∀ p ∈ e.2.prices.getD [],
    p.coinPair = coinPair → isCanonicalText p.price = true))

/- What a canonical price within bounds amounts to. -/
structure Priced (v : ℚ) : Prop where
  grid : OnGrid 38 v
  pos : 0 < v
  below : v < 10 ^ 10

/- The senders whose price for the pair counts, each with its value. -/
def valued (submissions : Submissions) (coinPair : String) : List (String × ℚ) :=
  submissions.entries.filterMap fun e => (valueFor coinPair e.2).map fun s => (e.1, bcnum s)

theorem values_valued : values submissions coinPair = (valued submissions coinPair).map Prod.snd := by
  unfold values valued collectPairValues
  rw [List.map_filterMap, List.map_filterMap]
  congr 1
  funext e
  cases valueFor coinPair e.2 with
  | none => rfl
  | some s => rfl

theorem in_bounds_priced {s : String} (canonical : isCanonicalText s = true)
    (bounds : inBounds s = true) : Priced (bcnum s) := by
  obtain ⟨read, grid, nonneg⟩ := canonical_value canonical
  rw [inBounds, read] at bounds
  simp only [Bool.and_eq_true, decide_eq_true_eq] at bounds
  have least : (0 : ℚ) < 1 / 2 ^ 1075 := by positivity
  have slack : (0 : ℚ) < 1 / 2 ^ 20 := by positivity
  have most : PRICE_MAX = 10 ^ 10 := by
    unfold PRICE_MAX
    norm_num
  exact ⟨grid, least.trans bounds.1, by linarith [bounds.2]⟩

theorem values_priced (canonical : CanonicalPrices submissions coinPair)
    (member : v ∈ values submissions coinPair) : Priced v := by
  obtain ⟨s, found, rfl⟩ := List.mem_map.mp member
  obtain ⟨e, entry, first⟩ := List.mem_filterMap.mp found
  obtain ⟨p, at_pair, rfl⟩ := Option.map_eq_some_iff.mp first
  have offered := List.mem_of_find?_eq_some at_pair
  have counts := List.find?_some at_pair
  simp only [Bool.and_eq_true, decide_eq_true_eq] at counts
  exact in_bounds_priced (canonical e entry p offered counts.1.1) counts.2

theorem lower_member (filled : vs ≠ []) : lowerMiddle vs ∈ vs := by
  have pos : 0 < vs.length := List.length_pos_iff.mpr filled
  have inside : vs.length / 2 - 1 < (vs.mergeSort (· ≤ ·)).length := by
    rw [List.length_mergeSort]
    omega
  rw [lowerMiddle, List.getD_eq_getElem _ _ inside]
  exact (List.mergeSort_perm vs _).mem_iff.mp (List.getElem_mem inside)

theorem upper_member (filled : vs ≠ []) : upperMiddle vs ∈ vs := by
  have pos : 0 < vs.length := List.length_pos_iff.mpr filled
  have inside : vs.length / 2 < (vs.mergeSort (· ≤ ·)).length := by
    rw [List.length_mergeSort]
    omega
  rw [upperMiddle, List.getD_eq_getElem _ _ inside]
  exact (List.mergeSort_perm vs _).mem_iff.mp (List.getElem_mem inside)

/-- Of two priced values 64 digits hold the sum and the half of its rounding. -/
theorem mean_rounded {a b : ℚ} (left : Priced a) (right : Priced b) :
    bcdiv (bcadd a b 18) 2 18 = fixed 18 (fixed 18 (a + b) / 2) := by
  have a_pos := left.pos
  have b_pos := right.pos
  have below : a + b < 2 * 10 ^ 10 := by linarith [left.below, right.below]
  have sum : bcadd a b 18 = fixed 18 (a + b) := by
    have short : |a + b| * 10 ^ 38 < 10 ^ 64 := by
      rw [abs_of_pos (by linarith)]
      calc (a + b) * 10 ^ 38 < 2 * 10 ^ 10 * 10 ^ 38 := by linarith
        _ < 10 ^ 64 := by norm_num
    rw [bcadd, formatted, significant_exact (left.grid.add right.grid) short]
  have near := fixed_error 18 (a + b)
  have nonneg : 0 ≤ fixed 18 (a + b) := fixed_nonneg (by linarith)
  have half : OnGrid 19 (fixed 18 (a + b) / 2) := by
    obtain ⟨n, shape⟩ := on_grid_fixed 18 (a + b)
    refine ⟨5 * n, ?_⟩
    rw [shape]
    push_cast
    ring
  have short : |fixed 18 (a + b) / 2| * 10 ^ 19 < 10 ^ 64 := by
    rw [abs_le] at near
    rw [abs_of_nonneg (by linarith)]
    have bound : fixed 18 (a + b) ≤ 2 * 10 ^ 10 + 1 := by
      have small : (1 : ℚ) / 2 / 10 ^ 18 ≤ 1 := by norm_num
      linarith [near.2]
    calc fixed 18 (a + b) / 2 * 10 ^ 19 ≤ (2 * 10 ^ 10 + 1) / 2 * 10 ^ 19 := by linarith
      _ < 10 ^ 64 := by norm_num
  rw [sum, bcdiv, if_neg (by norm_num), formatted, significant_exact half short]

end Priced

section Robust

/- An even set whose exact mean lies under a half of the last place by no more than the
   scale-18 sum and quotient round away, where the price above passes the deviation gate. -/
structure Slip (vs : List ℚ) (k : ℤ) : Prop where
  filled : vs ≠ []
  even : vs.length % 2 = 0
  low : (k + 1 / 2 : ℚ) / 10 ^ 8 - 3 / 4 / 10 ^ 18 ≤ median vs
  high : median vs < (k + 1 / 2 : ℚ) / 10 ^ 8
  backed : splitApart vs ((k + 1) / 10 ^ 8) = false

structure RobustFunction (submissions : Submissions) (coinPair : String) : Prop where
  order : ∀ other : Submissions, other.entries.Perm submissions.entries →
    unclamped other coinPair = unclamped submissions coinPair
  plain : ∀ price, unclamped submissions coinPair = some price →
    price = fixed 8 (median (values submissions coinPair))
  honest : ∀ adversary : String → Bool,
    2 * ((valued submissions coinPair).filter fun e => adversary e.1).length <
      (valued submissions coinPair).length →
    ∀ price, unclamped submissions coinPair = some price →
      (∃ e ∈ valued submissions coinPair, adversary e.1 = false ∧ fixed 8 e.2 ≤ price) ∧
      ∃ e ∈ valued submissions coinPair, adversary e.1 = false ∧ price ≤ fixed 8 e.2

variable {submissions : Submissions} {coinPair : String} {vs : List ℚ} {price : ℚ} {k : ℤ}

/-- Outside the slip the two roundings of the code are one. -/
theorem code_median_differs_iff (filled : vs ≠ []) (priced : ∀ v ∈ vs, Priced v) :
    codeMedian vs ≠ fixed 8 (median vs) ↔
      vs.length % 2 = 0 ∧ ∃ k : ℤ, (k + 1 / 2 : ℚ) / 10 ^ 8 - 3 / 4 / 10 ^ 18 ≤ median vs ∧
        median vs < (k + 1 / 2 : ℚ) / 10 ^ 8 := by
  have lower := priced _ (lower_member filled)
  have upper := priced _ (upper_member filled)
  have nonneg : 0 ≤ lowerMiddle vs + upperMiddle vs := (add_pos lower.pos upper.pos).le
  rw [codeMedian, median_middles]
  by_cases even : vs.length % 2 = 0
  · rw [if_pos even, if_pos even, mean_rounded lower upper, rounded_differs_iff nonneg]
    simp [even]
  · simp [even]

theorem code_median_slip (filled : vs ≠ []) (priced : ∀ v ∈ vs, Priced v)
    (even : vs.length % 2 = 0) (low : (k + 1 / 2 : ℚ) / 10 ^ 8 - 3 / 4 / 10 ^ 18 ≤ median vs)
    (high : median vs < (k + 1 / 2 : ℚ) / 10 ^ 8) : codeMedian vs = (k + 1) / 10 ^ 8 := by
  have lower := priced _ (lower_member filled)
  have upper := priced _ (upper_member filled)
  have nonneg : 0 ≤ lowerMiddle vs + upperMiddle vs := (add_pos lower.pos upper.pos).le
  rw [median_middles, if_pos even] at low high
  rw [codeMedian, if_pos even, mean_rounded lower upper, rounded_up nonneg low high]

theorem median_pos (filled : vs ≠ []) (priced : ∀ v ∈ vs, Priced v) : 0 < median vs := by
  have lower := (priced _ (lower_member filled)).pos
  have upper := (priced _ (upper_member filled)).pos
  rw [median_middles]
  split
  · linarith
  · exact upper

theorem fixed_mono {a b : ℚ} (nonneg : 0 ≤ a) (le : a ≤ b) : fixed 8 a ≤ fixed 8 b := by
  have scaled : a * 10 ^ 8 ≤ b * 10 ^ 8 := by linarith
  have rounded : (halfUp (a * 10 ^ 8) : ℚ) ≤ halfUp (b * 10 ^ 8) := by
    exact_mod_cast half_up_mono (by positivity) scaled
  unfold fixed
  exact div_le_div_of_nonneg_right rounded (by positivity)

/-- The plain median has an honest value on either side, and so has its rounding. -/
theorem median_honest (canonical : CanonicalPrices submissions coinPair)
    (adversary : String → Bool)
    (few : 2 * ((valued submissions coinPair).filter fun e => adversary e.1).length <
      (valued submissions coinPair).length) :
    (∃ e ∈ valued submissions coinPair, adversary e.1 = false ∧
      fixed 8 e.2 ≤ fixed 8 (median (values submissions coinPair))) ∧
    ∃ e ∈ valued submissions coinPair, adversary e.1 = false ∧
      fixed 8 (median (values submissions coinPair)) ≤ fixed 8 e.2 := by
  obtain ⟨all, shape⟩ : ∃ all, all = valued submissions coinPair := ⟨_, rfl⟩
  have priced : ∀ v ∈ all.map Prod.snd, Priced v := by
    rw [shape, ← values_valued]
    exact fun v => values_priced canonical
  rw [← shape] at few ⊢
  rw [values_valued, ← shape]
  have filled : all.map Prod.snd ≠ [] := by
    intro none
    rw [List.map_eq_nil_iff] at none
    rw [none] at few
    simp at few
  have split : ((all.filter fun e => !adversary e.1).map Prod.snd ++
      (all.filter fun e => adversary e.1).map Prod.snd).Perm
        ((all.map Prod.snd).mergeSort (· ≤ ·)) := by
    rw [← List.map_append]
    have parts : ((all.filter fun e => !adversary e.1) ++
        all.filter fun e => adversary e.1).Perm all :=
      List.perm_append_comm.trans (List.filter_append_perm (fun e => adversary e.1) all)
    exact (parts.map Prod.snd).trans (List.mergeSort_perm _ _).symm
  obtain ⟨⟨low, low_member, below⟩, ⟨high, high_member, above⟩⟩ :=
    middle_between (merge_sort_sorted _) split
      (by rw [List.length_map, List.length_mergeSort, List.length_map]; exact few)
  obtain ⟨e, kept, rfl⟩ := List.mem_map.mp low_member
  obtain ⟨f, kept', rfl⟩ := List.mem_map.mp high_member
  obtain ⟨member, honest⟩ := List.mem_filter.mp kept
  obtain ⟨member', honest'⟩ := List.mem_filter.mp kept'
  have e_pos := (priced e.2 (List.mem_map_of_mem member)).pos
  rw [Bool.not_eq_true'] at honest honest'
  exact ⟨⟨e, member, honest, fixed_mono e_pos.le below⟩,
    ⟨f, member', honest', fixed_mono (median_pos filled priced).le above⟩⟩

/-- Over canonical submissions the aggregate is robust unless its set slips. -/
theorem robust_unless_slip (canonical : CanonicalPrices submissions coinPair) :
    RobustFunction submissions coinPair ↔ ¬∃ k, Slip (values submissions coinPair) k := by
  have priced : ∀ v ∈ values submissions coinPair, Priced v := fun v => values_priced canonical
  constructor
  · rintro robust ⟨k, slip⟩
    have code := code_median_slip slip.filled priced slip.even slip.low slip.high
    have start := median_pos slip.filled priced
    have next : (0 : ℚ) < (k + 1) / 10 ^ 8 := by
      have half : (0 : ℚ) < (k + 1 / 2) / 10 ^ 8 := start.trans slip.high
      linarith
    have published : unclamped submissions coinPair = some ((k + 1 : ℚ) / 10 ^ 8) := by
      rw [unclamped_iff]
      refine ⟨slip.filled, code, next, ?_⟩
      rintro ⟨_, apart⟩
      rw [slip.backed] at apart
      cases apart
    have plain := robust.plain _ published
    have differ := (code_median_differs_iff slip.filled priced).mpr
      ⟨slip.even, k, slip.low, slip.high⟩
    exact differ (code.trans plain)
  · intro steady
    have plain : ∀ price, unclamped submissions coinPair = some price →
        price = fixed 8 (median (values submissions coinPair)) := by
      intro price published
      obtain ⟨filled, code, _, gate⟩ := unclamped_iff.mp published
      by_contra differ
      rw [← code] at differ
      obtain ⟨even, k, low, high⟩ := (code_median_differs_iff filled priced).mp differ
      have up := code_median_slip filled priced even low high
      apply steady
      refine ⟨k, filled, even, low, high, ?_⟩
      rw [← up, code]
      by_contra apart
      exact gate ⟨even, by simpa using apart⟩
    refine ⟨fun other same => unclamped_perm same, plain, ?_⟩
    intro adversary few price published
    rw [plain price published]
    exact median_honest canonical adversary few

end Robust

section Samples

def offer (sender price : String) : String × Submission :=
  (sender, { prices := some [{ coinPair := "BTC/USD", price }] })

def trio : Submissions where
  entries := [offer "a" "61000.5", offer "b" "1", offer "c" "61002.25"]
  nodup := by decide

/- Two hubs with one price, a tenth of a place of the second rounding under the half. -/
def twins : Submissions where
  entries := [offer "a" "1.0000000049999999999", offer "b" "1.0000000049999999999"]
  nodup := by decide

theorem trio_robust : RobustFunction trio "BTC/USD" := by
  apply (robust_unless_slip (by decide)).mpr
  rintro ⟨k, slip⟩
  exact absurd slip.even (by decide +kernel)

theorem twins_rounded_up : CanonicalPrices twins "BTC/USD" ∧
    unclamped twins "BTC/USD" = some (100000001 / 10 ^ 8) ∧
    fixed 8 (median (values twins "BTC/USD")) = 1 ∧ ¬RobustFunction twins "BTC/USD" := by
  obtain ⟨v, shape⟩ : ∃ v : ℚ, v = 1 + 49999999999 / 10 ^ 19 := ⟨_, rfl⟩
  have canonical : CanonicalPrices twins "BTC/USD" := by decide
  have two : values twins "BTC/USD" = [v, v] := by
    rw [shape]
    decide +kernel
  have lower : lowerMiddle [v, v] = v := by simpa using @lower_member [v, v] (by simp)
  have upper : upperMiddle [v, v] = v := by simpa using @upper_member [v, v] (by simp)
  have plain : fixed 8 (median (values twins "BTC/USD")) = 1 := by
    rw [two, median_middles, lower, upper, shape]
    decide +kernel
  have published : unclamped twins "BTC/USD" = some (100000001 / 10 ^ 8) := by
    rw [unclamped_iff, two, codeMedian, splitApart, lower, upper, shape]
    decide +kernel
  refine ⟨canonical, published, plain, ?_⟩
  intro robust
  have same := robust.plain _ published
  rw [plain] at same
  norm_num at same

end Samples
end XChainHub.Oracle.Consensus
