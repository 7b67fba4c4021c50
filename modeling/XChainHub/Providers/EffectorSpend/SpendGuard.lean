import XChainHub.Library.RollingWindow

/-!
The spend guard of an effector: the pause, the two rolling windows (a number of
broadcasts and their cost in USD cents), the reservations, and the file that carries
the window over a restart. Times are milliseconds and costs whole cents.
-/
namespace XChainHub.EffectorSpend
open RollingWindow

def HARD_CAP_USD_CENTS : Int := 200000
def DEFAULT_EST_SPEND_USD_CENTS : Int := 100
def DEFAULT_WINDOW_MS : Int := 3600000

/- The knobs as the constructors leave them. -/
structure Config where
  maxPerWindow : Nat
  windowMs : Int
  maxSpendUsdCents : Int
  estSpendUsdCents : Int
  window_pos : 0 < windowMs
  budget_pos : 0 < maxSpendUsdCents
  budget_capped : maxSpendUsdCents ≤ HARD_CAP_USD_CENTS
  est_pos : 0 < estSpendUsdCents

def atLeastOne (value : Option Int) (dflt : Int) : Int :=
  let v := value.getD dflt
  if v ≤ 0 then dflt else v

theorem at_least_one_pos {value : Option Int} {dflt : Int} (positive : 0 < dflt) :
    0 < atLeastOne value dflt := by
  unfold atLeastOne
  dsimp only
  split <;> omega

/- Each knob as parseInt reads it, none where that is no number. -/
def Config.read (maxPublishes windowMs maxSpend estSpend : Option Int) : Config where
  maxPerWindow := (maxPublishes.getD 0).toNat
  windowMs := atLeastOne windowMs DEFAULT_WINDOW_MS
  maxSpendUsdCents := min (atLeastOne maxSpend HARD_CAP_USD_CENTS) HARD_CAP_USD_CENTS
  estSpendUsdCents := atLeastOne estSpend DEFAULT_EST_SPEND_USD_CENTS
  window_pos := at_least_one_pos (by decide)
  budget_pos := lt_min (at_least_one_pos (by decide)) (by decide)
  budget_capped := min_le_right _ _
  est_pos := at_least_one_pos (by decide)

def Config.disabled (cfg : Config) : Bool := cfg.maxPerWindow = 0

/- The count ceiling is a list of times. -/
namespace SpendCeiling

def prune (cfg : Config) (now : Int) (spends : List Int) : List Int :=
  RollingWindow.prune id (now - cfg.windowMs) spends

def allow (cfg : Config) (now : Int) (spends : List Int) : Bool × List Int :=
  if cfg.disabled then (true, spends)
  else
    let live := prune cfg now spends
    (live.length < cfg.maxPerWindow, live)

/- A time of zero reads as none given. -/
def record (cfg : Config) (now t : Int) (spends : List Int) : List Int :=
  if cfg.disabled then spends
  else
    let t := if t = 0 then now else t
    prune cfg t spends ++ [t]

def reserve (cfg : Config) (now : Int) (spends : List Int) : Option Int × List Int :=
  if cfg.disabled then (none, spends) else (some now, prune cfg now spends ++ [now])

def release (cfg : Config) (handle : Option Int) (spends : List Int) : List Int :=
  match handle with
  | none => spends
  | some t => if cfg.disabled then spends else spends.eraseP (· = t)

def seedConsumed (cfg : Config) (now : Int) (spends : List Int) : List Int :=
  if cfg.disabled then spends
  else
    let live := prune cfg now spends
    live ++ List.replicate (cfg.maxPerWindow - live.length) now

end SpendCeiling

structure Spend where
  t : Int
  cost : Int
  reservation : Option Nat
  deriving DecidableEq

/- What the store holds of a guard; the label and the two stamps beside it are never read. -/
structure Saved where
  spends : List Spend
  paused : Bool
  pauseReason : Option String
  deriving DecidableEq

/- A torn file is the front of a text, which does not parse. -/
inductive Disk where
  | absent
  | torn
  | saved (text : Saved)
  deriving DecidableEq

/- What a write that failed, or that the process died in, leaves in the file. -/
inductive Left where
  | kept
  | torn
  | whole
  deriving DecidableEq

inductive Write where
  | landed
  | refused (left : Left)
  deriving DecidableEq

structure Blocked where
  pause : Nat
  spend : Nat
  persist : Nat
  deriving DecidableEq

structure SpendGuard where
  spends : List Spend
  ceiling : List Int
  reserveSeq : Nat
  armed : Bool
  persistBroken : Bool
  paused : Bool
  pauseReason : Option String
  blocked : Blocked
  deriving DecidableEq

structure Token where
  id : Nat
  ceilingHandle : Option Int
  settled : Bool
  deriving DecidableEq

def SpendGuard.new : SpendGuard :=
  ⟨[], [], 0, false, false, false, none, ⟨0, 0, 0⟩⟩

section Store

def SpendGuard.text (g : SpendGuard) : Saved := ⟨g.spends, g.paused, g.pauseReason⟩

def Write.leaves (write : Write) (disk : Disk) (text : Saved) : Disk :=
  match write with
  | .landed => .saved text
  | .refused .kept => disk
  | .refused .torn => .torn
  | .refused .whole => .saved text

def persist (write : Write) (g : SpendGuard) (disk : Disk) : Bool × SpendGuard × Disk :=
  if !g.armed then (true, g, disk)
  else
    match write with
    | .landed => (true, { g with persistBroken := false }, write.leaves disk g.text)
    | .refused _ => (false, { g with persistBroken := true }, write.leaves disk g.text)

def storeUsable (write : Write) (g : SpendGuard) (disk : Disk) : Bool × SpendGuard × Disk :=
  if !g.armed || !g.persistBroken then (true, g, disk) else persist write g disk

end Store

section Window
variable (cfg : Config)

def prune (now : Int) (spends : List Spend) : List Spend :=
  RollingWindow.prune Spend.t (now - cfg.windowMs) spends

/- An argument is its Number(), none where that is not finite. -/
def computeCost (cost : Option Int) : Int :=
  match cost with
  | none => cfg.estSpendUsdCents
  | some c => if c ≤ 0 then cfg.estSpendUsdCents else c

def seedConsumed (now : Int) (g : SpendGuard) : SpendGuard :=
  { g with
    spends := g.spends ++ [⟨now, cfg.maxSpendUsdCents, none⟩]
    ceiling := SpendCeiling.seedConsumed cfg now g.ceiling }

def restorePause (saved : Saved) (g : SpendGuard) : SpendGuard :=
  if !saved.paused || g.paused then g
  else
    { g with
      paused := true
      pauseReason := match saved.pauseReason with
        | some "" => "operator pause"
        | some reason => reason
        | none => "operator pause" }

/- One saved entry, in the loop of loadState. -/
def restoreSpend (now : Int) (g : SpendGuard) (e : Spend) : SpendGuard :=
  if e.t ≤ now - cfg.windowMs then g
  else
    let t := min e.t now
    { g with
      spends := g.spends ++ [⟨t, computeCost cfg (some e.cost), none⟩]
      ceiling := SpendCeiling.record cfg now t g.ceiling }

def restoreWindow (now : Int) (saved : Saved) (g : SpendGuard) : SpendGuard :=
  let loaded := saved.spends.foldl (restoreSpend cfg now) g
  { loaded with spends := loaded.spends.mergeSort (fun a b => a.t ≤ b.t) }

/- How the file system answers: a read may fail on a file that is there, and the
   directory of an absent one may refuse writes. -/
structure Probe where
  readable : Bool
  writable : Bool
  deriving DecidableEq

def loadState (now : Int) (probe : Probe) (disk : Disk) (g : SpendGuard) : SpendGuard :=
  if !probe.readable then seedConsumed cfg now g
  else
    match disk with
    | .absent => if probe.writable then g else seedConsumed cfg now g
    | .torn => seedConsumed cfg now g
    | .saved saved => restoreWindow cfg now saved (restorePause saved g)

def persistTo (now : Int) (probe : Probe) (write : Write) (g : SpendGuard) (disk : Disk) :
    SpendGuard × Disk :=
  let loaded := loadState cfg now probe disk { g with armed := true }
  if loaded.paused then (persist write loaded disk).2 else (loaded, disk)

end Window

section Calls
variable (cfg : Config)

def pause (reason : Option String) (write : Write) (g : SpendGuard) (disk : Disk) :
    Bool × SpendGuard × Disk :=
  let reason := match reason with
    | some "" => "operator pause"
    | some r => r
    | none => "operator pause"
  persist write { g with paused := true, pauseReason := some reason } disk

def resume (write : Write) (g : SpendGuard) (disk : Disk) : Bool × SpendGuard × Disk :=
  persist write { g with paused := false, pauseReason := none } disk

def dropReservation (id : Nat) (spends : List Spend) : List Spend :=
  spends.eraseP (·.reservation = some id)

def blockSpend (g : SpendGuard) : SpendGuard :=
  { g with blocked := { g.blocked with spend := g.blocked.spend + 1 } }

/- The guard with the reservation in both windows, before it is written down. -/
def enter (now c : Int) (g : SpendGuard) : Token × SpendGuard :=
  let seq := g.reserveSeq + 1
  let slot := SpendCeiling.reserve cfg now g.ceiling
  (⟨seq, slot.1, false⟩,
    { g with
      reserveSeq := seq
      ceiling := slot.2
      spends := g.spends ++ [⟨now, c, some seq⟩] })

def rollback (token : Token) (g : SpendGuard) : SpendGuard :=
  { g with
    spends := dropReservation token.id g.spends
    ceiling := SpendCeiling.release cfg token.ceilingHandle g.ceiling
    blocked := { g.blocked with persist := g.blocked.persist + 1 } }

def reserve (now : Int) (cost : Option Int) (write : Write) (g : SpendGuard) (disk : Disk) :
    Option Token × SpendGuard × Disk :=
  if g.paused then
    (none, { g with blocked := { g.blocked with pause := g.blocked.pause + 1 } }, disk)
  else
    let (allowed, ceiling) := SpendCeiling.allow cfg now g.ceiling
    let g := { g with ceiling := ceiling }
    if !allowed then (none, blockSpend g, disk)
    else
      let c := computeCost cfg cost
      let g := { g with spends := prune cfg now g.spends }
      if total Spend.cost g.spends + c > cfg.maxSpendUsdCents then (none, blockSpend g, disk)
      else
        let (token, entered) := enter cfg now c g
        match persist write entered disk with
        | (true, g, disk) => (some token, g, disk)
        | (false, g, disk) => (none, rollback cfg token g, disk)

def reprice (id : Nat) (c : Int) (spends : List Spend) : List Spend :=
  match spends.findIdx? (·.reservation = some id) with
  | none => spends
  | some i => spends.modify i ({ · with cost := c })

def commit (actualCost : Option Int) (write : Write) (token : Token) (g : SpendGuard)
    (disk : Disk) : Token × SpendGuard × Disk :=
  let settled := { token with settled := true }
  match actualCost with
  | none => (settled, g, disk)
  | some c =>
    if c ≤ 0 || (g.spends.findIdx? (·.reservation = some token.id)).isNone then
      (settled, g, disk)
    else
      (settled, (persist write { g with spends := reprice token.id c g.spends } disk).2)

def release (write : Write) (token : Token) (g : SpendGuard) (disk : Disk) :
    Token × SpendGuard × Disk :=
  if token.settled then (token, g, disk)
  else
    let dropped :=
      { g with
        spends := dropReservation token.id g.spends
        ceiling := SpendCeiling.release cfg token.ceilingHandle g.ceiling }
    ({ token with settled := true }, (persist write dropped disk).2)

end Calls
end XChainHub.EffectorSpend
