import Mathlib.Data.List.MinMax
import XChainHub.Library.GuardedRuns
import XChainHub.Oracle.PriceAggregator.Store

/-!
The clamp reference of oracle/consensus/clamp_reference.js with its seed in
oracle/consensus/lifecycle.js: for each pair a price and the round it came from, beside the
rows of price_snapshots. Rounds are whole numbers, and a round that is not a number is none.
-/
namespace XChainHub.Oracle.ClampReference
open PriceAggregator (SnapshotStatus)

section Rows

structure PriceRow where
  status : SnapshotStatus
  price : Option String
  deriving DecidableEq

/- price_snapshots under its unique key of round and pair. -/
abbrev Rows := OrderedMap (ℤ × String) PriceRow

structure Reference where
  pair : String
  round : ℤ
  price : String
  deriving DecidableEq

def lastFinalizedSeedPairs (canonicalPairs : List String) : List String :=
  let named (s : String) : Bool :=
    match s.toList.splitOn '/' with
    | [base, quote] => base ≠ [] && quote ≠ [] && (base ++ quote).all fun c => c.isUpper || c.isDigit
    | _ => false
  match canonicalPairs.filter named with
  | [] => ["BTC/USD"]
  | pairs => pairs

def usable (pair : String) (belowRound : Option ℤ) (e : (ℤ × String) × PriceRow) : Option Reference :=
  if e.2.status = .finalized ∧ e.1.2 = pair ∧ belowRound.all (e.1.1 < ·) then
    e.2.price.map (Reference.mk pair e.1.1)
  else none

/- ORDER BY round_number DESC LIMIT 1. -/
def seedRow (rows : Rows) (belowRound : Option ℤ) (pair : String) : Option Reference :=
  @List.argmax _ ℤ Int.instLinearOrder.toPreorder Int.decLt Reference.round
    (rows.entries.filterMap (usable pair belowRound))

def lastFinalizedSeed (rows : Rows) (pairs : List String) (belowRound : Option ℤ) : List Reference :=
  pairs.filterMap (seedRow rows belowRound)

end Rows

section Cached

/- _lastFinalizedPrices and _lastFinalizedRounds. -/
structure Cache where
  prices : OrderedMap String String
  rounds : OrderedMap String ℤ

def Cache.empty : Cache := ⟨.empty, .empty⟩

def DEFAULT_FUTURE_ROUND_TOLERANCE : ℤ := 2

/- clock is the round the schedule is on, where it can be resolved. -/
def bandMax (clock : Option ℤ) : Option ℤ := clock.map (· + DEFAULT_FUTURE_ROUND_TOLERANCE)

def beyond (clock : Option ℤ) (round : ℤ) : Bool := (bandMax clock).any (· < round)

def noteFinalizedPrice (clock : Option ℤ) (c : Cache) (coinPair : String) (price : Option String)
    (round : Option ℤ) : Cache :=
  match price with
  | none => c
  | some text =>
    if coinPair = "" ∨ text = "" then c
    else
      match round with
      | none => { c with prices := c.prices.set coinPair text }
      | some r =>
        if beyond clock r ∨ (c.rounds.get coinPair).any (r < ·) then c
        else ⟨c.prices.set coinPair text, c.rounds.set coinPair r⟩

def noteIngestedPriceRow (clock : Option ℤ) (c : Cache) (coinPair : String) (round : Option ℤ)
    (row : PriceRow) : Cache :=
  if row.status = .finalized then noteFinalizedPrice clock c coinPair row.price round else c

def updateLastFinalizedPrices (clock : Option ℤ) (c : Cache) (prices : List (String × String))
    (round : Option ℤ) : Cache :=
  prices.foldl (fun c p => noteFinalizedPrice clock c p.1 (some p.2) round) c

def noteSeeded (clock : Option ℤ) (c : Cache) (r : Reference) : Cache :=
  noteFinalizedPrice clock c r.pair (some r.price) (some r.round)

def maxCachedFinalizedRound (c : Cache) : Option ℤ := (c.rounds.entries.map Prod.snd).max?

/- Entries from this round or later are no references for it. -/
def late (round : ℤ) (c : Cache) (pair : String) : Bool := (c.rounds.get pair).any (round ≤ ·)

def discardFrom (round : ℤ) (c : Cache) : Cache :=
  ⟨c.prices.filter fun e => !late round c e.1, c.rounds.filter fun e => !late round c e.1⟩

def dropped (round : ℤ) (c : Cache) : Bool := c.rounds.entries.any fun e => round ≤ e.2

/- The skipped read: the cache's newest round is the one before. -/
def atRound (round : ℤ) (c : Cache) : Bool := (maxCachedFinalizedRound c).any (round - 1 ≤ ·)

end Cached

section Steps

inductive Reader where
  | start
  | timer
  | refresh (round : ℤ)
  deriving DecidableEq

/- A read under way, with its answer once the database has given one; a read that fails
   answers nothing. -/
structure Read where
  reader : Reader
  belowRound : Option ℤ
  answer : Option (List Reference)
  deriving DecidableEq

structure Engine where
  rows : Rows
  clock : Option ℤ
  cache : Cache
  refreshRound : Option ℤ
  reseedRunning : Bool
  reads : List Read
  staleClampReference : ℕ

inductive Event where
  | database (rows : Rows)
  | clock (current : Option ℤ)
  | ingested (coinPair : String) (round : Option ℤ) (row : PriceRow)
  | stored (prices : List (String × String)) (round : Option ℤ)
  | start
  | reseed
  | refresh (round : ℤ)
  | answer (i : ℕ)
  | fail (i : ℕ)
  | resume (i : ℕ)

def seed (reader : Reader) (belowRound : Option ℤ) (s : Engine) : Engine :=
  { s with reads := s.reads ++ [⟨reader, belowRound, none⟩] }

def refreshLastFinalizedForRound (round : ℤ) (s : Engine) : Engine :=
  if s.refreshRound = some round then s
  else
    let kept := { s with refreshRound := some round, cache := discardFrom round s.cache }
    if dropped round s.cache = false ∧ atRound round kept.cache = true then kept
    else seed (.refresh round) (some round) kept

def answerRead (given : Read → List Reference) (i : ℕ) (s : Engine) : Engine :=
  match s.reads[i]? with
  | some r =>
    if r.answer = none then { s with reads := s.reads.set i { r with answer := some (given r) } } else s
  | none => s

/- The rest of seedLastFinalizedPrices, and of the call that waits for it. -/
def resumeRead (i : ℕ) (s : Engine) : Engine :=
  match s.reads[i]? with
  | some ⟨reader, _, some found⟩ =>
    let s := { s with reads := s.reads.eraseIdx i, cache := found.foldl (noteSeeded s.clock) s.cache }
    match reader with
    | .start => s
    | .timer => { s with reseedRunning := false }
    | .refresh round =>
      if atRound round s.cache then s else { s with staleClampReference := s.staleClampReference + 1 }
  | _ => s

def step (canonicalPairs : List String) (s : Engine) : Event → Engine
  | .database rows => { s with rows := rows }
  | .clock current => { s with clock := current }
  | .ingested pair round row => { s with cache := noteIngestedPriceRow s.clock s.cache pair round row }
  | .stored prices round => { s with cache := updateLastFinalizedPrices s.clock s.cache prices round }
  | .start => seed .start none s
  | .reseed => if s.reseedRunning then s else seed .timer s.clock { s with reseedRunning := true }
  | .refresh round => refreshLastFinalizedForRound round s
  | .answer i =>
    answerRead (fun r => lastFinalizedSeed s.rows (lastFinalizedSeedPairs canonicalPairs) r.belowRound) i s
  | .fail i => answerRead (fun _ => []) i s
  | .resume i => resumeRead i s

abbrev run (canonicalPairs : List String) : Engine → List Event → Engine :=
  GuardedRuns.run (step canonicalPairs)

/- A refresh whose read is answered, with what the read brings. -/
def refreshing (s : Engine) (i : ℕ) : Option (ℤ × List Reference) :=
  match s.reads[i]? with
  | some ⟨.refresh round, _, some found⟩ => some (round, found)
  | _ => none

/- The rounds whose refresh returns in a step. -/
def returns (s : Engine) : Event → Option ℤ
  | .refresh round =>
    if s.refreshRound = some round ∨
        (dropped round s.cache = false ∧ atRound round (discardFrom round s.cache) = true) then
      some round
    else none
  | .resume i => (refreshing s i).map Prod.fst
  | _ => none

def booted (rows : Rows) (clock : Option ℤ) : Engine := ⟨rows, clock, .empty, none, false, [], 0⟩

end Steps
end XChainHub.Oracle.ClampReference
