import XChainHub.CrossChain.Bridge.Proposal
import XChainHub.Library.GuardedRuns
import XChainHub.Library.SlotHeap

/-!
The bridge invariant read: cross_chain/bridge/invariant.js over the pending view the poll of
transfer_poll.js keeps and the finalized records of persist.js. The chains are a state of
their own, of which every reading is an exact copy. The pending view is keyed by recorded
tick and destination; only its sums are read, and it is kept here as the legs it sums.
-/
namespace XChainHub.CrossChain.Bridge.Backing
open Bcmath DecimalRounding GuardedRuns SlotHeap

def amountScale : ℕ := 18

def allowedChains : List Coin := [.btc, .ltc, .doge]

/- '<CHAIN>.<tick>' is the copy of a tick native on CHAIN; any other name is its own. -/
def nativeTick (tick : String) : String :=
  let chain := tick.toList.takeWhile (· ≠ '.')
  match tick.toList.drop chain.length with
  | '.' :: rest =>
    if allowedChains.any (fun c => c.text.toList = chain) then String.ofList rest else tick
  | _ => tick

/- The name a native tick carries on a chain. -/
def chainTickName (tick : String) (origin : Option Coin) (chain : Coin) : String :=
  match origin with
  | none => tick
  | some o => if tick = "XCHAIN" || chain = o then tick else o.text ++ "." ++ tick

inductive Kind where
  | lock
  | burn
  deriving DecidableEq

/- A leg as its source chain mined it, under the name its tick has there. -/
structure SourceLeg where
  srcChain : Coin
  srcActionIndex : ℤ
  kind : Kind
  tick : String
  destChain : Coin
  amount : String
  deriving DecidableEq

def SourceLeg.native (l : SourceLeg) : String := nativeTick l.tick

/- A lock is mined on the tick's origin, a burn pays out there. -/
def SourceLeg.home (l : SourceLeg) : Coin :=
  match l.kind with
  | .lock => l.srcChain
  | .burn => l.destChain

def amountValue (amount : String) : ℚ := bcnum (String.ofList (normalizeAmount amount))

def SourceLeg.value (l : SourceLeg) : ℚ := amountValue l.amount

/- Where each tick is native; XCHAIN is on BTC by construction. -/
structure Homes where
  home : String → Coin
  xchain : home "XCHAIN" = .btc

def amountsTo (legs : List SourceLeg) (t : String) (c : Coin) : List ℚ :=
  (legs.filter (fun l => l.native = t && l.destChain = c)).map SourceLeg.value

/- The chains at one moment, every copy backed: the escrow at BRIDGE_C on the origin is at
   least the supply on C and the legs to C that C has not credited. Amounts have the decimals
   of a token and the digits of a BigNumber. -/
structure Chains (homes : Homes) where
  supply : Coin → String → ℚ
  escrow : Coin → String → Coin → ℚ
  mined : List SourceLeg
  credited : List SourceLeg
  homed : ∀ l ∈ mined, l.home = homes.home l.native
  decimal : ∀ l ∈ mined, 0 ≤ l.value ∧ OnGrid amountScale l.value
  supplied : ∀ c n, 0 ≤ supply c n ∧ OnGrid amountScale (supply c n)
  short : ∀ o n c, escrow o n c * 10 ^ amountScale < 10 ^ 64
  backed : ∀ t c, c ≠ homes.home t →
    supply c (chainTickName t (some (homes.home t)) c) +
      (amountsTo (mined.filter (· ∉ credited)) t c).sum ≤ escrow (homes.home t) t c

variable {homes : Homes}

/- A bridge_transfers row of status finalized. -/
structure Record where
  leg : SourceLeg
  effectiveTime : ℕ
  deriving DecidableEq

abbrev Views := OrderedMap Coin (List SourceLeg)

structure Polling where
  pendingByChain : Views
  rest : List Coin

/- answered lists the names the indexer answered for before it failed. -/
structure Reading (homes : Homes) where
  chains : Chains homes
  answered : List String

inductive Phase where
  | pairs
  | flight
  | pending
  | origins
  | chains (rest : List Coin)

/- A getBridgeInvariant call at its awaits; out holds the in_flight of each entry, and counted
   the legs it sums. A chain whose reader threw has the reading none. -/
structure Read (homes : Homes) where
  wanted : Option String
  now : ℕ
  phase : Phase
  out : OrderedMap (String × Coin) ℚ
  counted : List SourceLeg
  origins : OrderedMap String Coin
  readings : OrderedMap Coin (Option (Reading homes))

abbrev Answer := List ((String × Coin) × Option ℚ)

/- answers is history. -/
structure Engine (homes : Homes) where
  chains : Chains homes
  now : ℕ
  rows : List Record
  pendingByChain : Views
  pending : List SourceLeg
  polling : Option Polling
  tickOrigin : OrderedMap String Coin
  reads : List (Option (Read homes))
  answers : List Answer

def Engine.start (chains : Chains homes) : Engine homes :=
  ⟨chains, 0, [], OrderedMap.empty, [], none, OrderedMap.empty, [], []⟩

/- A page lists each leg with whether it passes the gates in front of its tick's origin. -/
inductive Event (homes : Homes) where
  | chains (next : Chains homes)
  | time (seconds : ℕ)
  | pollStart
  | pollChain (page : Option (List (SourceLeg × Bool)))
  | pollEnd
  | finalize (record : Record)
  | readStart (tick : Option String)
  | readPairs (n : ℕ) (ok : Bool)
  | readFlight (n : ℕ) (ok : Bool)
  | readPending (n : ℕ)
  | readOrigins (n : ℕ)
  | readChain (n : ℕ) (answered : Option (List String))
  | assemble (n : ℕ)

/- A leg this hub holds a record for. -/
def persisted (rows : List Record) (l : SourceLeg) : Bool :=
  rows.any (fun r => r.leg.srcChain = l.srcChain && r.leg.srcActionIndex = l.srcActionIndex)

def recorded (rows : List Record) (page : List (SourceLeg × Bool)) : List SourceLeg :=
  (page.map Prod.fst).filter (fun l => !persisted rows l && l.tick ≠ "")

def learn (tickOrigin : OrderedMap String Coin) (l : SourceLeg) : OrderedMap String Coin :=
  tickOrigin.set l.native l.home

def learnPage (rows : List Record) (page : List (SourceLeg × Bool))
    (tickOrigin : OrderedMap String Coin) : OrderedMap String Coin :=
  ((page.filter (fun e => e.2 && !persisted rows e.1)).map Prod.fst).foldl learn tickOrigin

/- A chain that fails keeps the view of its last complete page. -/
def pollPendingTransfers (page : Option (List (SourceLeg × Bool))) (h : Engine homes) :
    Engine homes :=
  match h.polling with
  | some ⟨views, c :: rest⟩ =>
    match page with
    | none => { h with polling := some ⟨views, rest⟩ }
    | some page =>
      { h with
        polling := some ⟨views.set c (recorded h.rows page), rest⟩
        tickOrigin := learnPage h.rows page h.tickOrigin }
  | _ => h

def combined (views : Views) : List SourceLeg := views.entries.flatMap Prod.snd

def pollEnd (h : Engine homes) : Engine homes :=
  match h.polling with
  | some ⟨views, []⟩ =>
    { h with pendingByChain := views, pending := combined views, polling := none }
  | _ => h

/- INSERT IGNORE: transfer_id is a function of the source leg. -/
def writeFinalizedTransfer (record : Record) (h : Engine homes) : Engine homes :=
  if persisted h.rows record.leg then h else { h with rows := h.rows ++ [record] }

def entry (out : OrderedMap (String × Coin) ℚ) (k : String × Coin) : OrderedMap (String × Coin) ℚ :=
  if out.has k then out else out.set k 0

/- The sum is kept as the text of its value. -/
def charge (out : OrderedMap (String × Coin) ℚ) (l : SourceLeg) : OrderedMap (String × Coin) ℚ :=
  out.set (l.native, l.destChain)
    (bcadd ((out.get (l.native, l.destChain)).getD 0) l.value amountScale)

def takes (wanted : Option String) (t : String) : Bool := wanted.all (fun w => w = "" || t = w)

def Read.count (r : Read homes) (legs : List SourceLeg) (phase : Phase) : Read homes :=
  { r with phase := phase, out := legs.foldl charge r.out, counted := r.counted ++ legs }

def readStart (tick : Option String) (h : Engine homes) : Read homes :=
  let tick := tick.filter (· ≠ "")
  ⟨tick.map nativeTick, h.now, .pairs,
    if tick.all (· = "XCHAIN") then
      (allowedChains.map (fun c => ("XCHAIN", c))).foldl entry OrderedMap.empty
    else OrderedMap.empty,
    [], OrderedMap.empty, OrderedMap.empty⟩

def readPairs (ok : Bool) (rows : List Record) (r : Read homes) : Read homes :=
  let named := if ok then rows.filter (fun row => takes r.wanted row.leg.native) else []
  { r with
    phase := .flight
    out := (named.flatMap (fun row =>
      [(row.leg.native, row.leg.srcChain), (row.leg.native, row.leg.destChain)])).foldl entry r.out }

/- The finalized rows whose effective time has not passed when the read began. -/
def flightLegs (ok : Bool) (rows : List Record) (r : Read homes) : List SourceLeg :=
  if ok then
    ((rows.filter (fun row => r.now < row.effectiveTime)).map Record.leg).filter
      (fun l => takes r.wanted l.native)
  else []

def pendingLegs (pending : List SourceLeg) (r : Read homes) : List SourceLeg :=
  pending.filter (fun l => takes r.wanted l.native)

def readOrigins (tickOrigin : OrderedMap String Coin) (r : Read homes) : Read homes :=
  { r with
    phase := .chains (allowedChains.filter (fun c => r.out.entries.any (fun e => e.1.2 = c)))
    origins := tickOrigin }

def readChain (chains : Chains homes) (answered : Option (List String)) (c : Coin)
    (rest : List Coin) (r : Read homes) : Read homes :=
  { r with
    phase := .chains rest
    readings := r.readings.set c (answered.map (fun names => ⟨chains, names⟩)) }

def originOf (origins : OrderedMap String Coin) (t : String) : Option Coin :=
  (origins.get t).or (if t = "XCHAIN" then some .btc else none)

def Reading.supply (g : Reading homes) (c : Coin) (name : String) : Option ℚ :=
  if name ∈ g.answered then some (g.chains.supply c name) else none

def Reading.escrow (g : Reading homes) (o : Coin) (t : String) (c : Coin) : Option ℚ :=
  if t ∈ g.answered then some (g.chains.escrow o t c) else none

def Read.reading (r : Read homes) (c : Coin) : Option (Reading homes) := (r.readings.get c).join

/- The delta of an entry, none where a half of it is unread or nothing backs it. -/
def Read.delta (r : Read homes) (t : String) (c : Coin) (inFlight : ℚ) : Option ℚ :=
  match originOf r.origins t with
  | none => none
  | some o =>
    if c = o then none
    else do
      let supply ← (r.reading c).bind (fun g => g.supply c (chainTickName t (some o) c))
      let escrow ← (r.reading o).bind (fun g => g.escrow o t c)
      some (bcsub escrow (bcadd supply inFlight amountScale) amountScale)

def Read.answer (r : Read homes) : Answer :=
  r.out.entries.map (fun e => (e.1, r.delta e.1.1 e.1.2 e.2))

def Engine.putRead (h : Engine homes) (n : ℕ) (r : Read homes) : Engine homes :=
  { h with reads := h.reads.set n (some r) }

/- What a step of one read makes of it, none where the event is not its next. -/
def readStep (h : Engine homes) : Event homes → Read homes → Option (Read homes)
  | .readPairs _ ok, r =>
    match r.phase with
    | .pairs => some (readPairs ok h.rows r)
    | _ => none
  | .readFlight _ ok, r =>
    match r.phase with
    | .flight => some (r.count (flightLegs ok h.rows r) .pending)
    | _ => none
  | .readPending _, r =>
    match r.phase with
    | .pending => some (r.count (pendingLegs h.pending r) .origins)
    | _ => none
  | .readOrigins _, r =>
    match r.phase with
    | .origins => some (readOrigins h.tickOrigin r)
    | _ => none
  | .readChain _ answered, r =>
    match r.phase with
    | .chains (c :: rest) => some (readChain h.chains answered c rest r)
    | _ => none
  | _, _ => none

/- The read an event is a step of. -/
def Event.slot : Event homes → Option ℕ
  | .readPairs n _ => some n
  | .readFlight n _ => some n
  | .readPending n => some n
  | .readOrigins n => some n
  | .readChain n _ => some n
  | _ => none

def advance (n : ℕ) (e : Event homes) (h : Engine homes) : Engine homes :=
  match slotAt h.reads n with
  | none => h
  | some r =>
    match readStep h e r with
    | none => h
    | some next => h.putRead n next

def assemble (n : ℕ) (h : Engine homes) : Engine homes :=
  match slotAt h.reads n with
  | none => h
  | some r =>
    match r.phase with
    | .chains [] => { h with reads := h.reads.set n none, answers := h.answers ++ [r.answer] }
    | _ => h

def step (h : Engine homes) (e : Event homes) : Engine homes :=
  match e.slot with
  | some n => advance n e h
  | none =>
    match e with
    | .chains next => { h with chains := next }
    | .time seconds => { h with now := h.now + seconds }
    | .pollStart =>
      if h.polling.isSome then h
      else { h with polling := some ⟨h.pendingByChain, allowedChains⟩ }
    | .pollChain page => pollPendingTransfers page h
    | .pollEnd => pollEnd h
    | .finalize record => writeFinalizedTransfer record h
    | .readStart tick => { h with reads := h.reads ++ [some (readStart tick h)] }
    | .assemble n => assemble n h
    | _ => h

end XChainHub.CrossChain.Bridge.Backing
