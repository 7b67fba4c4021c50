import XChainHub.Library.OrderedMap
import XChainHub.Library.OrderStatistics
import XChainHub.Oracle.CanonicalPrice
import XChainHub.Oracle.Consensus.Clamp
import Mathlib.Data.Prod.Lex
import Mathlib.Data.String.Basic

/-!
The trimmed median of oracle/consensus/aggregate.js for one pair, up to the clamp, and the
deviation band that withholds an even split. A submission map is kept in arrival order.
-/
namespace XChainHub.Oracle.Consensus
open Bcmath DecimalRounding OrderStatistics

structure PriceEntry where
  coinPair : String
  price : String
  deriving DecidableEq

/- none where prices is no array. -/
structure Submission where
  prices : Option (List PriceEntry)
  deriving DecidableEq

abbrev Submissions := OrderedMap String Submission

def ORACLE_DEVIATION_THRESHOLD : ℚ := 1 / 20

section Band

def deviationFrom (value reference : ℚ) (scale : ℕ) : ℚ :=
  let diff := bcsub value reference scale
  let absDiff := if diff < 0 then bcmul diff (-1) scale else diff
  bcdiv absDiff reference scale

def exceedsBand (value reference threshold : ℚ) (scale : ℕ) : Bool :=
  threshold < deviationFrom value reference scale

end Band

section Values

/- val > 0 and val < PRICE_MAX for the double nearest to what parseFloat reads: it is not
   zero above half the least one, and below PRICE_MAX under the middle to the next lower. -/
def inBounds (price : String) : Bool :=
  match parseFloat price with
  | none => false
  | some val => 1 / 2 ^ 1075 < val && val < PRICE_MAX - 1 / 2 ^ 20

/- The first value of a submission that counts. -/
def valueFor (coinPair : String) (sub : Submission) : Option String :=
  ((sub.prices.getD []).find? (fun p =>
    p.coinPair = coinPair && p.price ≠ "" && inBounds p.price)).map PriceEntry.price

def collectPairValues (submissions : Submissions) (coinPair : String) : List String :=
  submissions.entries.filterMap fun e => valueFor coinPair e.2

/- The order of compareExact. -/
def notAfter (a b : String) : Bool :=
  bcnum a < bcnum b || (bcnum a = bcnum b && a ≤ b)

/- Math.ceil(n * 0.15). -/
def trimCount (n : ℕ) : ℕ := (3 * n + 19) / 20

def trimPairValues (values : List String) : List String :=
  let sorted := values.mergeSort notAfter
  let trim := trimCount sorted.length
  if 0 < trim ∧ 2 * trim < sorted.length then (sorted.take (sorted.length - trim)).drop trim
  else sorted

def medianOf (values : List String) (mid : ℕ) : ℚ :=
  if values.length % 2 = 0 then
    fixed 8 (bcdiv (bcadd (bcnum (values.getD (mid - 1) "")) (bcnum (values.getD mid "")) 18) 2 18)
  else fixed 8 (bcnum (values.getD mid ""))

def evenSplitRejected (values : List String) (mid : ℕ) (median : ℚ) : Bool :=
  let lo := fixed 8 (bcnum (values.getD (mid - 1) ""))
  let hi := fixed 8 (bcnum (values.getD mid ""))
  exceedsBand lo median ORACLE_DEVIATION_THRESHOLD 18 ||
    exceedsBand hi median ORACLE_DEVIATION_THRESHOLD 18

/- The aggregate of a pair in front of its clamp. -/
def unclamped (submissions : Submissions) (coinPair : String) : Option ℚ :=
  let values := collectPairValues submissions coinPair
  if values.length = 0 then none
  else
    let values := trimPairValues values
    if values.length = 0 then none
    else
      let mid := values.length / 2
      let median := medianOf values mid
      if median ≤ 0 then none
      else if values.length % 2 = 0 && evenSplitRejected values mid median then none
      else some median

def aggregate (lastFinalized : Option ℚ) (submissions : Submissions) (coinPair : String) :
    Option ℚ :=
  (unclamped submissions coinPair).map (clampToLastFinalized coinPair lastFinalized)

end Values

section Order
variable {a b c : String} {values : List String} {coinPair : String}

theorem not_after_lex : notAfter a b = true ↔ toLex (bcnum a, a) ≤ toLex (bcnum b, b) := by
  simp only [notAfter, Bool.or_eq_true, Bool.and_eq_true, decide_eq_true_eq, Prod.Lex.toLex_le_toLex]

theorem not_after_trans (first : notAfter a b = true) (second : notAfter b c = true) :
    notAfter a c = true := by
  rw [not_after_lex] at *
  exact first.trans second

theorem not_after_total (a b : String) : (notAfter a b || notAfter b a) = true := by
  rw [Bool.or_eq_true, not_after_lex, not_after_lex]
  exact le_total _ _

theorem not_after_antisymm (first : notAfter a b = true) (second : notAfter b a = true) : a = b := by
  rw [not_after_lex] at *
  exact (Prod.mk.inj (toLex.injective (le_antisymm first second))).2

theorem sorted_values (values : List String) :
    (values.mergeSort notAfter).Pairwise (fun a b => notAfter a b = true) := by
  apply List.pairwise_mergeSort
  · intro a b c
    exact not_after_trans
  · exact not_after_total

/-- The trimmed set does not depend on the order in which the values came. -/
theorem trim_perm {other : List String} (same : other.Perm values) :
    trimPairValues other = trimPairValues values := by
  have arranged : other.mergeSort notAfter = values.mergeSort notAfter :=
    ((List.mergeSort_perm other _).trans (same.trans (List.mergeSort_perm values _).symm)).eq_of_pairwise
      (fun _ _ _ _ => not_after_antisymm) (sorted_values other) (sorted_values values)
  rw [trimPairValues, trimPairValues, arranged]

theorem unclamped_perm {submissions other : Submissions}
    (same : other.entries.Perm submissions.entries) :
    unclamped other coinPair = unclamped submissions coinPair := by
  have values : (collectPairValues other coinPair).Perm (collectPairValues submissions coinPair) :=
    same.filterMap _
  rw [unclamped, unclamped]
  dsimp only
  rw [trim_perm values, values.length_eq]

end Order
end XChainHub.Oracle.Consensus
