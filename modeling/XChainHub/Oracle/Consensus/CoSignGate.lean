import XChainHub.Library.ScriptOrder
import XChainHub.Oracle.Consensus.Aggregate

/-!
The co-sign gate of oracle/consensus/cosign_gate.js over a proposal as the wire delivers it.
A gate that throws refuses like one that rejects.
-/
namespace XChainHub.Oracle.Consensus
open Bcmath DecimalRounding ScriptValue

/- What a follower judges by. The whitelist is empty where there is none; the keys are those
   of the registry and those that the submissions carry. -/
structure Follower where
  canonicalPairs : List String
  allowUnverifiedPairs : Bool
  lastFinalized : String → Option ℚ
  resolveSenderPubkey : String → Option String
  submissionKey : String → Option String

section Reference

def offeredPairs (submissions : Submissions) : List String :=
  ((submissions.entries.flatMap fun e =>
    (e.2.prices.getD []).map PriceEntry.coinPair).filter (· ≠ "")).dedup

def aggregateAll (lastFinalized : String → Option ℚ) (submissions : Submissions) :
    List (String × ℚ) :=
  ((offeredPairs submissions).filterMap fun pair =>
    (aggregate (lastFinalized pair) submissions pair).map (Prod.mk pair)).insertionSort
      fun a b => a.1 ≤ b.1

def evenSetMiddles (lastFinalized : Option ℚ) (coinPair : String) (values : List String) :
    Option (List ℚ) :=
  if values.length = 0 ∨ values.length % 2 ≠ 0 then none
  else some ([values.getD (values.length / 2 - 1) "", values.getD (values.length / 2) ""].map
    fun v => clampToLastFinalized coinPair lastFinalized (fixed 8 (bcnum v)))

variable (f : Follower) (sender : String) (submissions : Submissions)

/- Whether a submission is the proposer's, by its address or by the key bound to it. -/
def proposerHeld (addr : String) : Bool :=
  addr = sender ||
    match f.resolveSenderPubkey sender with
    | none => false
    | some key => ((f.submissionKey addr).orElse fun _ => f.resolveSenderPubkey addr) = some key

def proposerPairs : List String :=
  offeredPairs (submissions.filter fun e => proposerHeld f sender e.1)

def referenceSubmissions : Submissions := submissions.filter fun e => !proposerHeld f sender e.1

def localByPair : List (String × ℚ) :=
  aggregateAll f.lastFinalized (referenceSubmissions f sender submissions)

def localPrice (coinPair : String) : Option ℚ :=
  ((localByPair f sender submissions).find? fun e => e.1 = coinPair).map Prod.snd

def middlesFor (coinPair : String) : Option (List ℚ) :=
  if coinPair ∈ proposerPairs f sender submissions then
    evenSetMiddles (f.lastFinalized coinPair) coinPair
      (trimPairValues (collectPairValues (referenceSubmissions f sender submissions) coinPair))
  else none

end Reference

section Prices

/- PRICE_VALUE_RE_CANONICAL: no leading zero, and at most eight decimals. -/
def canonicalV0 (s : String) : Bool :=
  let whole := s.toList.takeWhile Char.isDigit
  (whole = ['0'] || (whole ≠ [] && whole.head? ≠ some '0')) &&
    match s.toList.dropWhile Char.isDigit with
    | [] => true
    | '.' :: frac => !frac.isEmpty && frac.length ≤ 8 && frac.all Char.isDigit
    | _ => false

def localDeviationRejected (price localPrice : ℚ) (middles : Option (List ℚ)) : Bool :=
  (middles.getD [localPrice]).all fun ref => exceedsBand ref price ORACLE_DEVIATION_THRESHOLD 18

def historicalBandRejected (price lastPrice : ℚ) : Bool :=
  let histDelta := bcmul lastPrice ORACLE_MAX_CHANGE_PER_ROUND 8
  let histHi := bcadd lastPrice histDelta 8
  let histLo := bcsub lastPrice histDelta 8
  histHi < price || price < histLo

variable (f : Follower) (sender : String) (submissions : Submissions)

/- Maps are keyed by strings: another value is in none of them. -/
def historicalRejected (pair : Value) (price : ℚ) : Bool :=
  match pair.textOf.bind f.lastFinalized with
  | some lastPrice =>
    if 0 < lastPrice then historicalBandRejected price lastPrice else !f.allowUnverifiedPairs
  | none => !f.allowUnverifiedPairs

def pairRejected (pair : Value) (price : ℚ) : Bool :=
  if f.canonicalPairs ≠ [] ∧ ¬(pair.textOf.any fun s => s ∈ f.canonicalPairs) then true
  else
    match pair.textOf.bind (localPrice f sender submissions) with
    | some ref =>
      if 0 < ref then
        localDeviationRejected price ref (pair.textOf.bind (middlesFor f sender submissions))
      else historicalRejected f pair price
    | none => historicalRejected f pair price

def priceRejected (p : Value) : Bool :=
  match canonicalPrice (p.field "price") with
  | none => true
  | some canon =>
    !canonicalV0 canon || !inBounds canon ||
      pairRejected f sender submissions (p.field "coinPair") (bcnum canon)

/- A pair that both views price, which a proposal may not leave out. -/
def demanded : List String :=
  ((localByPair f sender submissions).map Prod.fst).filter fun pair =>
    pair ∈ (aggregateAll f.lastFinalized submissions).map Prod.fst

def coverageRejects (prices : List Value) : Bool :=
  prices.isEmpty ||
    (demanded f sender submissions).any fun pair =>
      !prices.any fun p => (p.field "coinPair").textOf = some pair

def coSignGateRejects (prices : Value) : Bool :=
  match prices with
  | .array items =>
    items.any (priceRejected f sender submissions) || coverageRejects f sender submissions items
  | _ => true

end Prices

section Passing
variable {f : Follower} {sender : String} {submissions : Submissions} {items : List Value}

theorem gate_passes_iff : coSignGateRejects f sender submissions (.array items) = false ↔
    (∀ p ∈ items, priceRejected f sender submissions p = false) ∧ items ≠ [] ∧
      ∀ pair ∈ demanded f sender submissions,
        ∃ p ∈ items, (p.field "coinPair").textOf = some pair := by
  simp only [coSignGateRejects, coverageRejects, Bool.or_eq_false_iff, List.any_eq_false,
    Bool.not_eq_true, List.isEmpty_eq_false_iff, Bool.not_eq_false', List.any_eq_true,
    decide_eq_true_eq]

theorem gate_passes_array {prices : Value}
    (passes : coSignGateRejects f sender submissions prices = false) :
    ∃ items, prices = .array items := by
  cases prices with
  | array items => exact ⟨items, rfl⟩
  | _ => cases passes

theorem gate_passes_perm {other : List Value} (same : other.Perm items)
    (passes : coSignGateRejects f sender submissions (.array items) = false) :
    coSignGateRejects f sender submissions (.array other) = false := by
  rw [gate_passes_iff] at passes ⊢
  obtain ⟨each, filled, covered⟩ := passes
  refine ⟨fun p member => each p (same.mem_iff.mp member), ?_, ?_⟩
  · rintro rfl
    exact filled same.symm.eq_nil
  · intro pair named
    obtain ⟨p, member, text⟩ := covered pair named
    exact ⟨p, same.mem_iff.mpr member, text⟩

/-- A value that is no string passes only where unverified pairs do and no whitelist is. -/
theorem odd_pair_passes_iff {pair : Value} {price : ℚ} (odd : pair.textOf = none) :
    pairRejected f sender submissions pair price = false ↔
      f.canonicalPairs = [] ∧ f.allowUnverifiedPairs = true := by
  rw [pairRejected, odd]
  by_cases listed : f.canonicalPairs = []
  · simp [listed, historicalRejected, odd]
  · simp [listed]

end Passing
end XChainHub.Oracle.Consensus
