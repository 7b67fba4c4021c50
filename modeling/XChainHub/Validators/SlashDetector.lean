import XChainHub.Lib.Bcmath.Format
import XChainHub.Library.BinaryRounding
import XChainHub.Library.JsonText
import XChainHub.Oracle.Consensus.Aggregate
import XChainHub.Validators.SlashGovernance

/-!
The price deviations of validators/slash_detector/deviations.js: the prices submitted to a
round against its published prices, in a band that is wider for the pairs whose published
price stands on a bound of the clamp. The prices of a submission are decimal numerals.
-/
namespace XChainHub.SlashDetector
open Bcmath BinaryRounding DecimalRounding DecimalText NumberText ScriptValue
open Oracle (parseFloat)
open Oracle.Consensus
open SlashGovernance (Offense Table recordSlashProposal)

section Detector

/- The finalized prices by pair that a round was clamped against. -/
abbrev Basis := OrderedMap String String

/- validatorPubkeys of the peer manager, and the band, kept as it is written. -/
structure Detector where
  validatorPubkeys : OrderedMap String String
  deviationThreshold : ℚ

def resolveValidatorPubkey (d : Detector) (addr : String) : Option String :=
  (d.validatorPubkeys.get addr).filter (· ≠ "")

/- Not NaN, and not 0 as a double. -/
def usableNumber (text : String) : Option ℚ :=
  (parseFloat text).filter fun v => 1 / 2 ^ 1075 < |v|

structure DeviatingPair where
  coinPair : String
  submitted : ℚ
  finalized : ℚ
  deviation : String
  deriving DecidableEq

def bandFor (d : Detector) (clampedPairs : List String) (coinPair : String) : ℚ :=
  if coinPair ∈ clampedPairs then numberSum d.deviationThreshold (maxChangeForPair coinPair)
  else d.deviationThreshold

def deviatingPair (d : Detector) (finalizedMap : OrderedMap String String)
    (clampedPairs : List String) (p : PriceEntry) : Option DeviatingPair :=
  match finalizedMap.get p.coinPair with
  | none => none
  | some finalPriceStr =>
    match usableNumber finalPriceStr, usableNumber p.price with
    | some finalPrice, some submittedPrice =>
      if exceedsBand (bcnum p.price) (bcnum finalPriceStr) (bandFor d clampedPairs p.coinPair) 18 then
        let deviation := deviationFrom (bcnum p.price) (bcnum finalPriceStr) 18
        let pct := bcformat (bcmul deviation 100 4) 4
        some ⟨p.coinPair, submittedPrice, finalPrice, pct ++ "%"⟩
      else none
    | _, _ => none

def deviatingPairsFor (d : Detector) (prices : List PriceEntry)
    (finalizedMap : OrderedMap String String) (clampedPairs : List String) : List DeviatingPair :=
  prices.filterMap (deviatingPair d finalizedMap clampedPairs)

def finalizedMapOf (finalizedPrices : List PriceEntry) : OrderedMap String String :=
  finalizedPrices.foldl (fun m fp => m.set fp.coinPair fp.price) .empty

def upperBound (coinPair : String) (last : ℚ) : ℚ :=
  bcadd last (bcmul last (maxChangeForPair coinPair) 8) 8

def lowerBound (coinPair : String) (last : ℚ) : ℚ :=
  bcsub last (bcmul last (maxChangeForPair coinPair) 8) 8

def onBound (basis : Basis) (coinPair published : String) : Bool :=
  match (basis.get coinPair).map bcnum with
  | none => false
  | some last =>
    0 < last && (!(bcnum published < upperBound coinPair last) ||
      !(lowerBound coinPair last < bcnum published))

/- basis is none where the engine keeps no reference for the round. -/
def clampLimitedPairs (basis : Option Basis) (finalizedMap : OrderedMap String String) :
    List String :=
  match basis with
  | none => []
  | some basis => (finalizedMap.entries.filter fun e => onBound basis e.1 e.2).map Prod.fst

def numberValue (q : ℚ) : Value :=
  .number (readNumber (plainText (shortest (toDouble q))).toList)

def pairEvidence (p : DeviatingPair) : Value :=
  .object [("coinPair", .text p.coinPair), ("submitted", numberValue p.submitted),
    ("finalized", numberValue p.finalized), ("deviation", .text p.deviation)]

def evidence (pairs : List DeviatingPair) : String :=
  JsonText.stringify (.object [("pairCount", .number (.ofNat pairs.length)),
    ("pairs", .array (pairs.map pairEvidence))])

/- The validator behind a submission with deviating pairs, and these. -/
def accused (d : Detector) (finalizedMap : OrderedMap String String) (clampedPairs : List String)
    (e : String × Submission) : Option (String × List DeviatingPair) :=
  match e.2.prices, resolveValidatorPubkey d e.1 with
  | some prices, some pubkey =>
    let deviatingPairs := deviatingPairsFor d prices finalizedMap clampedPairs
    if deviatingPairs = [] then none else some (pubkey, deviatingPairs)
  | _, _ => none

def checkSubmission (d : Detector) (finalizedMap : OrderedMap String String)
    (clampedPairs : List String) (round : ℤ) (t : Table) (e : String × Submission) : Table :=
  match accused d finalizedMap clampedPairs e with
  | none => t
  | some (pubkey, deviatingPairs) =>
    (recordSlashProposal t pubkey .priceDeviation (some round) (some (evidence deviatingPairs))).2

def checkDeviations (d : Detector) (basis : Option Basis) (t : Table) (round : ℤ)
    (submissions : Submissions) (finalizedPrices : List PriceEntry) : Table :=
  let finalizedMap := finalizedMapOf finalizedPrices
  let clampedPairs := clampLimitedPairs basis finalizedMap
  submissions.entries.foldl (checkSubmission d finalizedMap clampedPairs round) t

end Detector

section Published

/- The aggregate of a pair in front of the clamp, as aggregate() publishes medians. -/
structure Median where
  value : ℚ
  positive : 0 < value
  onGrid : OnGrid 8 value

def reference (basis : Option Basis) (coinPair : String) : Option ℚ :=
  (basis.bind (·.get coinPair)).map bcnum

def publishedText (basis : Option Basis) (coinPair : String) (m : Median) : String :=
  bcformat (clampToLastFinalized coinPair (reference basis coinPair) m.value) 8

def published (basis : Option Basis) (aggregates : OrderedMap String Median) : List PriceEntry :=
  aggregates.entries.map fun e => ⟨e.1, publishedText basis e.1 e.2⟩

/- The bound of the clamp that a price lies beyond. -/
def cutOff (basis : Option Basis) (coinPair : String) (price : ℚ) : Option ℚ :=
  match reference basis coinPair with
  | none => none
  | some last =>
    if last ≤ 0 then none
    else if upperBound coinPair last < price then some (upperBound coinPair last)
    else if price < lowerBound coinPair last then some (lowerBound coinPair last)
    else none

variable {basis : Option Basis} {coinPair : String} {m : Median} {bound : ℚ}

theorem clamp_cut (price : ℚ) : clampToLastFinalized coinPair (reference basis coinPair) price =
    (cutOff basis coinPair price).getD price := by
  unfold cutOff
  cases reference basis coinPair with
  | none => rfl
  | some last =>
    have upper : fixed 8 (upperBound coinPair last) = upperBound coinPair last :=
      fixed_on_grid (on_grid_fixed 8 _)
    have lower : fixed 8 (lowerBound coinPair last) = lowerBound coinPair last :=
      fixed_on_grid (on_grid_fixed 8 _)
    change (if last ≤ 0 then price
      else if upperBound coinPair last < price then fixed 8 (upperBound coinPair last)
      else if price < lowerBound coinPair last then fixed 8 (lowerBound coinPair last)
      else price) = _
    rw [upper, lower]
    dsimp only
    split
    · rfl
    · split
      · rfl
      · split <;> rfl

/-- What a price beyond a bound is cut off to: a value of the published places, not negative. -/
theorem cut_off_value (cut : cutOff basis coinPair m.value = some bound) :
    0 ≤ bound ∧ OnGrid 8 bound := by
  unfold cutOff at cut
  split at cut
  · cases cut
  · rename_i last _
    split at cut
    · cases cut
    · rename_i positive
      have pos := not_le.mp positive
      obtain ⟨bounded, _⟩ := bound_range coinPair
      split at cut
      · cases cut
        refine ⟨formatted_nonneg ?_, on_grid_fixed 8 _⟩
        have delta : 0 ≤ bcmul last (maxChangeForPair coinPair) 8 :=
          formatted_nonneg (mul_pos pos bounded).le
        linarith
      · split at cut
        · rename_i below
          cases cut
          exact ⟨(m.positive.trans below).le, on_grid_fixed 8 _⟩
        · cases cut

/- The published value of an aggregate. -/
def shown (basis : Option Basis) (coinPair : String) (m : Median) : ℚ :=
  (cutOff basis coinPair m.value).getD m.value

theorem shown_value (basis : Option Basis) (coinPair : String) (m : Median) :
    0 ≤ shown basis coinPair m ∧ OnGrid 8 (shown basis coinPair m) := by
  unfold shown
  cases cut : cutOff basis coinPair m.value with
  | none => exact ⟨m.positive.le, m.onGrid⟩
  | some bound => exact cut_off_value cut

theorem published_value : bcnum (publishedText basis coinPair m) = shown basis coinPair m := by
  obtain ⟨nonneg, grid⟩ := shown_value basis coinPair m
  rw [publishedText, clamp_cut]
  exact (format_value nonneg grid (by decide)).2

/-- A published price counts unless it is zero. -/
theorem published_usable : usableNumber (publishedText basis coinPair m) =
    if shown basis coinPair m = 0 then none else some (shown basis coinPair m) := by
  obtain ⟨nonneg, grid⟩ := shown_value basis coinPair m
  have parsed : parseFloat (publishedText basis coinPair m) = some (shown basis coinPair m) := by
    rw [publishedText, clamp_cut]
    exact (format_value nonneg grid (by decide)).1
  rw [usableNumber, parsed, Option.filter_some]
  by_cases zero : shown basis coinPair m = 0
  · rw [if_pos zero, zero, if_neg]
    norm_num
  · obtain ⟨n, shape⟩ := grid
    have filled : (1 : ℚ) ≤ n := by
      have pos : 0 < shown basis coinPair m := lt_of_le_of_ne nonneg (Ne.symm zero)
      rw [shape] at pos
      have units : (0 : ℚ) < n := by
        by_contra none
        exact absurd pos (not_lt.mpr (div_nonpos_of_nonpos_of_nonneg (not_lt.mp none) (by norm_num)))
      exact_mod_cast Int.add_one_le_iff.mpr (by exact_mod_cast units : (0 : ℤ) < n)
    have large : (1 : ℚ) / 2 ^ 1075 < |shown basis coinPair m| := by
      rw [abs_of_nonneg nonneg, shape]
      have unit : (1 : ℚ) / 2 ^ 1075 < 1 / 10 ^ 8 := by
        apply one_div_lt_one_div_of_lt (by norm_num)
        calc (10 : ℚ) ^ 8 < 2 ^ 27 := by norm_num
          _ ≤ 2 ^ 1075 := pow_le_pow_right₀ (by norm_num) (by norm_num)
      exact unit.trans_le (div_le_div_of_nonneg_right filled (by norm_num))
    rw [if_neg zero, if_pos (decide_eq_true large)]

theorem get_fold (rows : List PriceEntry) (k : String) :
    (finalizedMapOf rows).get k = (rows.reverse.find? (·.coinPair = k)).map PriceEntry.price := by
  unfold finalizedMapOf
  induction rows using List.reverseRecOn with
  | nil => rfl
  | append_singleton rows fp ih =>
    rw [List.foldl_append, List.reverse_append]
    simp only [List.foldl_cons, List.foldl_nil, List.reverse_singleton, List.singleton_append]
    by_cases same : fp.coinPair = k
    · rw [← same, OrderedMap.get_set_same, List.find?_cons_of_pos (by simp)]
      rfl
    · rw [OrderedMap.get_set_other (Ne.symm same), ih, List.find?_cons_of_neg (by simpa using same)]

theorem get_published (aggregates : OrderedMap String Median) :
    (finalizedMapOf (published basis aggregates)).get coinPair =
      (aggregates.get coinPair).map (publishedText basis coinPair) := by
  have row {fp : PriceEntry} (member : fp ∈ published basis aggregates)
      (here : fp.coinPair = coinPair) :
      ∃ m, aggregates.get coinPair = some m ∧ fp.price = publishedText basis coinPair m := by
    obtain ⟨e, entry, rfl⟩ := List.mem_map.mp member
    subst here
    exact ⟨e.2, OrderedMap.get_of_mem entry, rfl⟩
  rw [get_fold]
  cases hit : (published basis aggregates).reverse.find? (·.coinPair = coinPair) with
  | some fp =>
    have here : fp.coinPair = coinPair := by simpa using List.find?_some hit
    obtain ⟨m, found, price⟩ := row (List.mem_reverse.mp (List.mem_of_find?_eq_some hit)) here
    rw [found, Option.map_some, Option.map_some, price]
  | none =>
    have missing := List.find?_eq_none.mp hit
    cases found : aggregates.get coinPair with
    | none => rfl
    | some m =>
      have member : (⟨coinPair, publishedText basis coinPair m⟩ : PriceEntry) ∈
          published basis aggregates := List.mem_map.mpr ⟨_, OrderedMap.mem_of_get found, rfl⟩
      exact absurd (missing _ (List.mem_reverse.mpr member)) (by simp)

/-- Every pair that the clamp moves is found to stand on its bound. -/
theorem moved_is_found {aggregates : OrderedMap String Median}
    (found : aggregates.get coinPair = some m)
    (cut : cutOff basis coinPair m.value = some bound) :
    coinPair ∈ clampLimitedPairs basis (finalizedMapOf (published basis aggregates)) := by
  have value : bcnum (publishedText basis coinPair m) = bound := by
    rw [published_value, shown, cut, Option.getD_some]
  have entry : (coinPair, publishedText basis coinPair m) ∈
      (finalizedMapOf (published basis aggregates)).entries := by
    apply OrderedMap.mem_of_get
    rw [get_published, found, Option.map_some]
  cases basis with
  | none => cases cut
  | some b =>
    refine List.mem_map.mpr ⟨_, List.mem_filter.mpr ⟨entry, ?_⟩, rfl⟩
    simp only [onBound, value]
    simp only [cutOff, reference, Option.bind_some] at cut
    split at cut
    · cases cut
    · rename_i last known
      simp only [Bool.and_eq_true, decide_eq_true_eq, Bool.or_eq_true, Bool.not_eq_true',
        decide_eq_false_iff_not]
      split at cut
      · cases cut
      · rename_i positive
        refine ⟨not_le.mp positive, ?_⟩
        split at cut
        · cases cut
          exact Or.inl (lt_irrefl _)
        · split at cut
          · cases cut
            exact Or.inr (lt_irrefl _)
          · cases cut

end Published

section Bands
variable {d : Detector} {basis : Option Basis} {aggregates : OrderedMap String Median}
  {p : PriceEntry} {value ref few more : ℚ}

theorem wider_band (le : few ≤ more) (inside : exceedsBand value ref few 18 = false) :
    exceedsBand value ref more 18 = false := by
  rw [exceedsBand, decide_eq_false_iff_not, not_lt] at *
  exact inside.trans le

theorem no_band_at_zero (nonneg : 0 ≤ few) : exceedsBand value 0 few 18 = false := by
  rw [exceedsBand, decide_eq_false_iff_not, not_lt, deviationFrom, bcdiv, if_pos rfl]
  exact nonneg

/-- The widened band is no narrower than the federation's. -/
theorem widened_band (band : ORACLE_DEVIATION_THRESHOLD ≤ few) (coinPair : String) :
    ORACLE_DEVIATION_THRESHOLD ≤ numberSum few (maxChangeForPair coinPair) := by
  have base : (1 : ℚ) / 20 ≤ few := band
  have pos : 0 < few := by linarith
  have first : (1 : ℚ) / 32 ≤ toDouble few := by
    have exponent : -5 ≤ Int.log 2 few := by
      rw [← Int.zpow_le_iff_le_log (by decide) pos]
      refine le_trans ?_ base
      norm_num
    refine le_trans ?_ (pow_le_double pos)
    calc (1 : ℚ) / 32 = 2 ^ (-5 : ℤ) := by norm_num
      _ ≤ 2 ^ Int.log 2 few := zpow_le_zpow_right₀ (by norm_num) exponent
  have second : (1 : ℚ) / 10 ≤ toDouble (maxChangeForPair coinPair) := by
    rcases bound_cases coinPair with tenth | quarter
    · rw [tenth]
      decide +kernel
    · rw [quarter]
      decide +kernel
  have sum : (1 : ℚ) / 8 ≤ toDouble few + toDouble (maxChangeForPair coinPair) := by linarith
  have third : (1 : ℚ) / 8 ≤ toDouble (toDouble few + toDouble (maxChangeForPair coinPair)) := by
    have positive : 0 < toDouble few + toDouble (maxChangeForPair coinPair) := by linarith
    have exponent : -3 ≤ Int.log 2 (toDouble few + toDouble (maxChangeForPair coinPair)) := by
      rw [← Int.zpow_le_iff_le_log (by decide) positive]
      refine le_trans ?_ sum
      norm_num
    refine le_trans ?_ (pow_le_double positive)
    calc (1 : ℚ) / 8 = 2 ^ (-3 : ℤ) := by norm_num
      _ ≤ _ := zpow_le_zpow_right₀ (by norm_num) exponent
  have written : (1 : ℚ) / 10 ≤ numberSum few (maxChangeForPair coinPair) := by
    have positive : 0 < toDouble (toDouble few + toDouble (maxChangeForPair coinPair)) := by
      linarith
    have exponent :
        -1 ≤ Int.log 10 (toDouble (toDouble few + toDouble (maxChangeForPair coinPair))) := by
      rw [← Int.zpow_le_iff_le_log (by decide) positive]
      refine le_trans ?_ third
      norm_num
    refine le_trans ?_ (pow_le_shortest positive)
    calc (1 : ℚ) / 10 = 10 ^ (-1 : ℤ) := by norm_num
      _ ≤ _ := zpow_le_zpow_right₀ (by norm_num) exponent
  have threshold : ORACLE_DEVIATION_THRESHOLD = 1 / 20 := rfl
  linarith

/- A submitted price that counts lies in the widened band around the bound that cut its pair's
   aggregate off. -/
def Within (d : Detector) (basis : Option Basis) (aggregates : OrderedMap String Median)
    (p : PriceEntry) : Prop :=
  (usableNumber p.price).isSome = true → ∀ m, aggregates.get p.coinPair = some m →
    ∀ bound, cutOff basis p.coinPair m.value = some bound →
      exceedsBand (bcnum p.price) bound
        (numberSum d.deviationThreshold (maxChangeForPair p.coinPair)) 18 = false

/-- A price near the aggregate deviates exactly if the clamp left it outside the widened band. -/
theorem deviates_iff (band : ORACLE_DEVIATION_THRESHOLD ≤ d.deviationThreshold)
    (honest : ∀ m, aggregates.get p.coinPair = some m →
      exceedsBand (bcnum p.price) m.value ORACLE_DEVIATION_THRESHOLD 18 = false) :
    deviatingPair d (finalizedMapOf (published basis aggregates))
      (clampLimitedPairs basis (finalizedMapOf (published basis aggregates))) p = none ↔
    Within d basis aggregates p := by
  have wide := widened_band band p.coinPair
  have threshold : (0 : ℚ) ≤ ORACLE_DEVIATION_THRESHOLD := by
    unfold ORACLE_DEVIATION_THRESHOLD
    norm_num
  unfold deviatingPair Within
  rw [get_published]
  cases found : aggregates.get p.coinPair with
  | none => simp
  | some m =>
    rw [Option.map_some]
    dsimp only
    rw [published_usable, published_value]
    cases price : usableNumber p.price with
    | none => simp
    | some submitted =>
      cases cut : cutOff basis p.coinPair m.value with
      | none =>
        -- the published price is the aggregate, and no band in force is narrower
        have same : shown basis p.coinPair m = m.value := by
          rw [shown, cut, Option.getD_none]
        have inside : exceedsBand (bcnum p.price) m.value (bandFor d
            (clampLimitedPairs basis (finalizedMapOf (published basis aggregates)))
            p.coinPair) 18 = false := by
          refine wider_band ?_ (honest m found)
          unfold bandFor
          split
          · exact wide
          · exact band
        rw [same, if_neg m.positive.ne', inside]
        simp [cut]
      | some bound =>
        have same : shown basis p.coinPair m = bound := by
          rw [shown, cut, Option.getD_some]
        have wideBand : bandFor d
            (clampLimitedPairs basis (finalizedMapOf (published basis aggregates))) p.coinPair =
            numberSum d.deviationThreshold (maxChangeForPair p.coinPair) :=
          if_pos (moved_is_found found cut)
        rw [same, wideBand]
        by_cases zero : bound = 0
        · subst zero
          rw [if_pos rfl]
          have inside := @no_band_at_zero (bcnum p.price) _ (threshold.trans wide)
          simp [cut, inside]
        · rw [if_neg zero]
          cases outside : exceedsBand (bcnum p.price) bound
              (numberSum d.deviationThreshold (maxChangeForPair p.coinPair)) 18 with
          | false => simp [cut, outside]
          | true => simp [cut, outside]

end Bands

section Records
variable {d : Detector} {finalizedMap : OrderedMap String String} {clampedPairs : List String}
  {round : ℤ}

abbrev hexKey (pubkey : String) : Prop :=
  pubkey.toList.length = 64 ∧ pubkey.toList.all HexText.isHexDigit = true

/- The rows that a run over submissions adds, and whom they name. -/
structure Recorded (accused : String × Submission → Option (String × List DeviatingPair))
    (entries : List (String × Submission)) (t next : Table) (more : List SlashGovernance.Row) :
    Prop where
  rows : next.rows = t.rows ++ more
  ids : t.nextId ≤ next.nextId
  fresh : ∀ r ∈ more, t.nextId ≤ r.id
  sound : ∀ r ∈ more, ∃ e ∈ entries, ∃ ps, accused e = some (r.validatorPubkey, ps)
  complete : ∀ e ∈ entries, ∀ pk ps, accused e = some (pk, ps) → hexKey pk →
    ∃ r ∈ more, r.validatorPubkey = pk

theorem submission_recorded (t : Table) (e : String × Submission) :
    ∃ more, Recorded (accused d finalizedMap clampedPairs) [e] t
      (checkSubmission d finalizedMap clampedPairs round t e) more := by
  unfold checkSubmission
  cases found : accused d finalizedMap clampedPairs e with
  | none =>
    refine ⟨[], ⟨by simp, le_refl _, by simp, by simp, ?_⟩⟩
    intro other member pk ps named
    rw [List.mem_singleton.mp member, found] at named
    cases named
  | some a =>
    obtain ⟨pubkey, pairs⟩ := a
    dsimp only
    unfold recordSlashProposal
    split
    · rename_i key
      refine ⟨[⟨t.nextId, pubkey, .priceDeviation, some round, some (evidence pairs), .pending⟩],
        ⟨rfl, Nat.le_succ _, by simp, ?_, ?_⟩⟩
      · intro r member
        rw [List.mem_singleton.mp member]
        exact ⟨e, List.mem_singleton_self e, pairs, found⟩
      · intro other member pk ps named _
        rw [List.mem_singleton.mp member, found] at named
        cases named
        exact ⟨_, List.mem_singleton_self _, rfl⟩
    · rename_i noKey
      refine ⟨[], ⟨by simp, le_refl _, by simp, by simp, ?_⟩⟩
      intro other member pk ps named key
      rw [List.mem_singleton.mp member, found] at named
      cases named
      exact absurd key noKey

theorem submissions_recorded (entries : List (String × Submission)) (t : Table) :
    ∃ more, Recorded (accused d finalizedMap clampedPairs) entries t
      (entries.foldl (checkSubmission d finalizedMap clampedPairs round) t) more := by
  induction entries generalizing t with
  | nil => exact ⟨[], ⟨by simp, le_refl _, by simp, by simp, by simp⟩⟩
  | cons e entries ih =>
    obtain ⟨first, one⟩ := @submission_recorded d finalizedMap clampedPairs round t e
    obtain ⟨rest, all⟩ := ih (checkSubmission d finalizedMap clampedPairs round t e)
    refine ⟨first ++ rest, ⟨?_, one.ids.trans all.ids, ?_, ?_, ?_⟩⟩
    · rw [List.foldl_cons, all.rows, one.rows, List.append_assoc]
    · intro r member
      rcases List.mem_append.mp member with early | late
      · exact one.fresh r early
      · exact one.ids.trans (all.fresh r late)
    · intro r member
      rcases List.mem_append.mp member with early | late
      · obtain ⟨other, here, named⟩ := one.sound r early
        rw [List.mem_singleton.mp here] at named
        exact ⟨e, List.mem_cons_self, named⟩
      · obtain ⟨other, here, named⟩ := all.sound r late
        exact ⟨other, List.mem_cons_of_mem e here, named⟩
    · intro other member pk ps named key
      rcases List.mem_cons.mp member with rfl | late
      · obtain ⟨r, here, same⟩ := one.complete other (List.mem_singleton_self other) pk ps named key
        exact ⟨r, List.mem_append_left rest here, same⟩
      · obtain ⟨r, here, same⟩ := all.complete other late pk ps named key
        exact ⟨r, List.mem_append_right first here, same⟩

end Records

section Honest
variable {d : Detector} {basis : Option Basis} {aggregates : OrderedMap String Median}
  {submissions : Submissions} {pubkey : String}

/- The prices that a validator submitted. -/
def Submitted (d : Detector) (submissions : Submissions) (pubkey : String) (p : PriceEntry) : Prop :=
  ∃ e ∈ submissions.entries, resolveValidatorPubkey d e.1 = some pubkey ∧
    ∃ prices, e.2.prices = some prices ∧ p ∈ prices

/- Every submitted price of a pair with an aggregate is in the federation's band around it. -/
def Honest (d : Detector) (aggregates : OrderedMap String Median) (submissions : Submissions)
    (pubkey : String) : Prop :=
  ∀ p, Submitted d submissions pubkey p → ∀ m, aggregates.get p.coinPair = some m →
    exceedsBand (bcnum p.price) m.value ORACLE_DEVIATION_THRESHOLD 18 = false

/-- Nothing is recorded against an honest validator exactly if, of every pair whose aggregate
    the clamp cut off, its price lies in the widened band around the bound. -/
theorem honest_spared_iff (t : Table) (round : ℤ) (key : hexKey pubkey)
    (band : ORACLE_DEVIATION_THRESHOLD ≤ d.deviationThreshold)
    (honest : Honest d aggregates submissions pubkey) :
    (∀ r ∈ (checkDeviations d basis t round submissions (published basis aggregates)).rows,
      r.validatorPubkey = pubkey → r ∈ t.rows) ↔
    ∀ p, Submitted d submissions pubkey p → Within d basis aggregates p := by
  obtain ⟨more, ran⟩ := @submissions_recorded d (finalizedMapOf (published basis aggregates))
    (clampLimitedPairs basis (finalizedMapOf (published basis aggregates))) round
    submissions.entries t
  change (∀ r ∈ (submissions.entries.foldl _ t).rows, _) ↔ _
  rw [ran.rows]
  constructor
  · rintro spared p ⟨e, entry, named, prices, submitted, member⟩
    rw [← deviates_iff band (honest p ⟨e, entry, named, prices, submitted, member⟩)]
    by_contra deviates
    have pairs : deviatingPairsFor d prices (finalizedMapOf (published basis aggregates))
        (clampLimitedPairs basis (finalizedMapOf (published basis aggregates))) ≠ [] := by
      intro empty
      exact deviates (List.filterMap_eq_nil_iff.mp empty p member)
    have accusation : accused d (finalizedMapOf (published basis aggregates))
        (clampLimitedPairs basis (finalizedMapOf (published basis aggregates))) e =
        some (pubkey, deviatingPairsFor d prices (finalizedMapOf (published basis aggregates))
          (clampLimitedPairs basis (finalizedMapOf (published basis aggregates)))) := by
      simp only [accused, submitted, named, if_neg pairs]
    obtain ⟨r, here, same⟩ := ran.complete e entry pubkey _ accusation key
    have old := spared r (List.mem_append_right t.rows here) same
    have before := t.fresh r old
    have after := ran.fresh r here
    omega
  · intro within r member same
    rcases List.mem_append.mp member with old | new
    · exact old
    · obtain ⟨e, entry, ps, named⟩ := ran.sound r new
      exfalso
      rw [same] at named
      simp only [accused] at named
      split at named
      · rename_i prices validator submitted known
        split at named
        · cases named
        · rename_i pairs
          cases named
          apply pairs
          refine List.filterMap_eq_nil_iff.mpr ?_
          intro p listed
          have here : Submitted d submissions pubkey p :=
            ⟨e, entry, known, prices, submitted, listed⟩
          exact (deviates_iff band (honest p here)).mpr (within p here)
      · cases named

end Honest

section Sample

def sampleKey : String := String.ofList (List.replicate 64 'a')

def sampleDetector : Detector := ⟨⟨[("hub-a", sampleKey)], by decide⟩, ORACLE_DEVIATION_THRESHOLD⟩

def sampleBasis : Basis := ⟨[("BTC/USD", "100.00000000")], by decide⟩

/- Three hubs submit the same price. -/
def unanimous (price : String) : Submissions :=
  ⟨["hub-a", "hub-b", "hub-c"].map fun h => (h, ⟨some [⟨"BTC/USD", price⟩]⟩), by
    rw [List.map_map]
    exact (by decide : ["hub-a", "hub-b", "hub-c"].Nodup)⟩

def jumped : Median := ⟨200, by norm_num, ⟨200 * 10 ^ 8, by norm_num⟩⟩

def moved : Median := ⟨130, by norm_num, ⟨130 * 10 ^ 8, by norm_num⟩⟩

def aggregated (m : Median) : OrderedMap String Median := ⟨[("BTC/USD", m)], by simp⟩

theorem sample_submitted {price : String} {p : PriceEntry}
    (given : Submitted sampleDetector (unanimous price) sampleKey p) : p = ⟨"BTC/USD", price⟩ := by
  obtain ⟨e, entry, -, prices, submitted, member⟩ := given
  obtain ⟨h, -, rfl⟩ := List.mem_map.mp entry
  cases submitted
  exact List.mem_singleton.mp member

/-- The price doubles in one round and all hubs submit the new one: the clamp publishes 125, 60%
    below what every hub submitted, and the widened band is 30%. -/
theorem honest_recorded_after_jump :
    unclamped (unanimous "200") "BTC/USD" = some jumped.value ∧
    hexKey sampleKey ∧
    Honest sampleDetector (aggregated jumped) (unanimous "200") sampleKey ∧
    (checkDeviations sampleDetector (some sampleBasis) Table.empty 7 (unanimous "200")
      (published (some sampleBasis) (aggregated jumped))).rows.any
        (fun r => r.validatorPubkey = sampleKey && r.offenseType = .priceDeviation) = true := by
  refine ⟨?_, by decide +kernel, ?_, by decide +kernel⟩
  · have values : collectPairValues (unanimous "200") "BTC/USD" = ["200", "200", "200"] := by
      decide +kernel
    have sorted : ["200", "200", "200"].mergeSort notAfter = ["200", "200", "200"] :=
      List.mergeSort_of_pairwise (by decide +kernel)
    have trimmed : trimPairValues ["200", "200", "200"] = ["200"] := by
      rw [trimPairValues, sorted]
      decide +kernel
    rw [unclamped, values, trimmed]
    decide +kernel
  · intro p given m found
    rw [sample_submitted given] at found ⊢
    cases found
    decide +kernel

theorem moderate_move_spared :
    Honest sampleDetector (aggregated moved) (unanimous "130") sampleKey ∧
      ∀ r ∈ (checkDeviations sampleDetector (some sampleBasis) Table.empty 7 (unanimous "130")
        (published (some sampleBasis) (aggregated moved))).rows,
        r.validatorPubkey = sampleKey → r ∈ Table.empty.rows := by
  have honest : Honest sampleDetector (aggregated moved) (unanimous "130") sampleKey := by
    intro p given m found
    rw [sample_submitted given] at found ⊢
    cases found
    decide +kernel
  refine ⟨honest, (honest_spared_iff Table.empty 7 (by decide +kernel) (le_refl _) honest).mpr ?_⟩
  intro p given _ m found bound cut
  rw [sample_submitted given] at found cut ⊢
  cases found
  have here : cutOff (some sampleBasis) "BTC/USD" moved.value = some 125 := by decide +kernel
  rw [here] at cut
  cases cut
  decide +kernel

end Sample
end XChainHub.SlashDetector
