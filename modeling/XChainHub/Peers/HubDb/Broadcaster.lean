import XChainHub.Peers.HubDb.AdmissionHeightWatermark

/-!
One hub's broadcaster with the sampling of its watermark: peers/hub_db_broadcaster.js,
peers/hub_db/admission_sampling.js and the stored floor of db/configs.js. Every event happens
at the clock's time, which never goes back.
-/
namespace XChainHub.HubDb
open HighWater

/- A save under way: the heights it computed, and whether its statement has run. -/
structure Save where
  published : List Claim
  caughtUp : Bool
  ran : Bool
  deriving DecidableEq

structure Frame where
  claim : Claim
  time : ℤ
  deriving DecidableEq

/- A round opened with a tip of a chain, and the advances observed by then. -/
structure Opened where
  table : String
  chain : String
  tip : ℤ
  time : ℤ
  observed : List (String × Observation)
  deriving DecidableEq

/- A row that went out, with what had been published before and the caps in force. -/
structure Sent where
  table : String
  row : Row
  earlier : List Frame
  standing : List Claim
  caps : OrderedMap (String × String) ℤ

/- stored outlives the process. From readings on it is history: every usable reading, every
   recorded advance, the advances of this process without pruning, the claims of this process's
   frames and of its floor, all frames, all rounds opened and all rows sent. -/
structure Broadcaster where
  clock : ℤ
  watermark : Watermark
  holdFloor : OrderedMap (String × String) ℤ
  floorLoaded : Bool
  saving : Option Save
  written : OrderedMap (String × String) ℤ
  stored : OrderedMap (String × String) ℤ
  readings : List (String × ℤ)
  history : List (String × Observation)
  seen : OrderedMap String (List Observation)
  standing : List Claim
  frames : List Frame
  rounds : List Opened
  sent : List Sent

inductive Event where
  | advance (ms : ℕ)
  | tip (chain : String) (height : Option ℤ)
  | cap (table chain : String) (height : Option ℤ)
  | loadFloor (ok : Bool)
  | frame (caughtUp : Bool)
  | save (caughtUp : Bool)
  | saveRan
  | saveAnswered (ok : Bool)
  | opened (table chain : String) (tip : ℤ)
  | row (table : String) (row : Row)
  | restart

section Steps
variable (cfg : Config) (b : Broadcaster)

def claimsOf (floor : OrderedMap (String × String) ℤ) : List Claim :=
  floor.entries.map (fun e => ⟨e.1.1, e.1.2, e.2⟩)

def heldAt (floor : OrderedMap (String × String) ℤ) (k : Claim) : Option Claim :=
  match floor.get (k.table, k.chain) with
  | none => none
  | some f => if usable f then some { k with height := min k.height f } else none

def admissionHeights (caughtUp : Bool) : List Claim :=
  let current := heights cfg b.watermark b.clock
  if caughtUp then current else current.filterMap (heldAt b.holdFloor)

/- The reading with the advance that it records, if it does. -/
def observe (chain : String) (height : Option ℤ) : Broadcaster :=
  let next := observeTip cfg b.watermark chain height b.clock
  match normalizeChain chain, height with
  | some c, some h =>
    if usable h then
      let noted := { b with watermark := next, readings := (c, h) :: b.readings }
      let all := (b.seen.get c).getD []
      if raise (b.watermark.marks c) ⟨b.clock, h⟩ = b.watermark.marks c then noted
      else { noted with
        history := (c, ⟨b.clock, h⟩) :: b.history
        seen := b.seen.set c (all ++ [⟨b.clock, h⟩]) }
    else { b with watermark := next }
  | _, _ => { b with watermark := next }

/- The floor is read once in the life of a process. -/
def loadFloor (ok : Bool) : Broadcaster :=
  if b.floorLoaded then b
  else if ok then
    let w := setFloor b.watermark b.stored.entries
    { b with
      floorLoaded := true
      watermark := w
      holdFloor := w.floor
      standing := claimsOf w.floor ++ b.standing }
  else { b with floorLoaded := true }

def publish (caughtUp : Bool) : Broadcaster :=
  let out := admissionHeights cfg b caughtUp
  { b with
    standing := out ++ b.standing
    frames := out.map (fun k => ⟨k, b.clock⟩) ++ b.frames }

def beginSave (caughtUp : Bool) : Broadcaster :=
  if b.saving.isSome then b
  else { b with saving := some ⟨admissionHeights cfg b caughtUp, caughtUp, false⟩ }

/- Only what is above the last value written by this process is written. -/
def fresh (k : Claim) : Bool := (b.written.get (k.table, k.chain)).all (· < k.height)

def setAll (m : OrderedMap (String × String) ℤ) (claims : List Claim) : OrderedMap (String × String) ℤ :=
  claims.foldl (fun m k => m.set (k.table, k.chain) k.height) m

def saveRan : Broadcaster :=
  match b.saving with
  | none => b
  | some s =>
    if s.ran then b
    else { b with
      saving := some { s with ran := true }
      stored := setAll b.stored (s.published.filter (fresh b)) }

def saveAnswered (ok : Bool) : Broadcaster :=
  match b.saving with
  | none => b
  | some s =>
    if !ok then { b with saving := none }
    else if !s.ran then b
    else
      let marked := { b with saving := none, written := setAll b.written (s.published.filter (fresh b)) }
      if s.caughtUp then { marked with holdFloor := setAll OrderedMap.empty s.published } else marked

def withdrawsPriceRound (table : String) (row : Row) : Bool :=
  table = "price_snapshots" && row.status = "disputed"

/- A late row is refused, a chain-ingested one with a forced resync. -/
def broadcastRow (table : String) (row : Row) : Broadcaster :=
  if !withdrawsPriceRound table row && isLateFinalization cfg b.watermark table row b.clock then b
  else { b with sent := ⟨table, row, b.frames, b.standing, b.watermark.caps⟩ :: b.sent }

def restart : Broadcaster :=
  { b with
    watermark := Watermark.empty
    holdFloor := OrderedMap.empty
    floorLoaded := false
    saving := none
    written := OrderedMap.empty
    seen := OrderedMap.empty
    standing := [] }

def step (ev : Event) : Broadcaster :=
  match ev with
  | .advance ms => { b with clock := b.clock + ms }
  | .tip chain height => observe cfg b chain height
  | .cap table chain height => { b with watermark := setTableCap b.watermark table chain height }
  | .loadFloor ok => loadFloor b ok
  | .frame caughtUp => publish cfg b caughtUp
  | .save caughtUp => beginSave cfg b caughtUp
  | .saveRan => saveRan b
  | .saveAnswered ok => saveAnswered b ok
  | .opened table chain tip =>
    { b with rounds := ⟨table, chain, tip, b.clock, b.history⟩ :: b.rounds }
  | .row table row => broadcastRow cfg b table row
  | .restart => restart b

end Steps

def Broadcaster.start : Broadcaster :=
  ⟨0, Watermark.empty, OrderedMap.empty, false, none, OrderedMap.empty, OrderedMap.empty, [], [],
    OrderedMap.empty, [], [], [], []⟩

end XChainHub.HubDb
