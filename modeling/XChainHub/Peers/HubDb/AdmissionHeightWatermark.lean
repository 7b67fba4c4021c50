import XChainHub.Library.HighWater
import XChainHub.Library.OrderedMap
import XChainHub.Consensus.Gates.MirrorAdmissionGate

/-!
The admission height watermark of one hub that runs rounds of its own:
peers/hub_db/admission_height_watermark.js, with the margins of
consensus/gates/mirror_admission_margin_gate.js.
-/
namespace XChainHub.HubDb
open HighWater MirrorAdmissionGate

inductive Rail where
  | xdex
  | attest
  | anchor
  | price
  | oracle
  deriving DecidableEq

structure Config where
  network : String
  roundWindows : Rail → ℕ

def Config.longest (cfg : Config) : ℕ :=
  ([.attest, .anchor, .price, .oracle] : List Rail).foldl (fun m r => max m (cfg.roundWindows r))
    (cfg.roundWindows .xdex)

def federationChains : List String := ["BTC", "LTC", "DOGE"]

structure TableSpec where
  chains : List String
  round : Rail
  deriving DecidableEq

def admissionWatermarkTables : List (String × TableSpec) :=
  [("cross_chain_matches", ⟨federationChains, .xdex⟩), ("cross_chain_calls", ⟨federationChains, .xdex⟩),
    ("bridge_transfers", ⟨federationChains, .xdex⟩), ("policy_snapshots", ⟨federationChains, .xdex⟩),
    ("list_snapshots", ⟨federationChains, .xdex⟩), ("remote_token_snapshots", ⟨federationChains, .xdex⟩),
    ("price_snapshots", ⟨federationChains, .price⟩), ("oracle_prices", ⟨federationChains, .oracle⟩),
    ("attestation_responses", ⟨["BTC"], .attest⟩), ("anchor_reward_attestations", ⟨["BTC"], .anchor⟩)]

def tableSpec (table : String) : Option TableSpec :=
  (admissionWatermarkTables.find? (fun t => t.1 = table)).map Prod.snd

def roundTerminalMs (cfg : Config) (table : String) : Option ℕ :=
  (tableSpec table).map (fun spec => cfg.roundWindows spec.round)

/- Upper-casing other letters than the ASCII ones yields no chain code of the federation. -/
def normalizeChain (chain : String) : Option String :=
  let c := String.ofList ((DecimalText.trim chain.toList).map Char.toUpper)
  if isChainCode c then some c else none

/- A usable height: a safe integer of zero or more. -/
def usable (height : ℤ) : Bool := 0 ≤ height && height ≤ maxSafeInteger

section Margins

def admitMarginBlocks : List (String × ℤ) :=
  [("attestation_responses", 1), ("oracle_prices", 1), ("anchor_reward_attestations", 144)]

def chainMarginTable : List (String × List (String × ℤ)) :=
  [("DOGE", [("bridge_transfers", 14), ("cross_chain_calls", 14), ("cross_chain_matches", 14),
      ("list_snapshots", 14), ("policy_snapshots", 14), ("price_snapshots", 16),
      ("remote_token_snapshots", 14)]),
    ("LTC", [("bridge_transfers", 14), ("cross_chain_calls", 14), ("cross_chain_matches", 14),
      ("list_snapshots", 14), ("policy_snapshots", 14), ("price_snapshots", 17),
      ("remote_token_snapshots", 14)])]

/- An unpinned activation is none. -/
def chainMarginActivation : List (String × Option ℤ) :=
  [("mainnet", none), ("DOGE:mainnet", none), ("DOGE:testnet", some 67989993), ("LTC:mainnet", none),
    ("LTC:testnet", some 4949697), ("regtest", some 0)]

def baseMarginBlocks (table : String) : ℤ := (admitMarginBlocks.lookup table).getD 4

def chainMarginBlocks (table chain : String) : Option ℤ :=
  (chainMarginTable.lookup chain).bind (fun margins => margins.lookup table)

def activationHeight (chain network : String) : Option ℤ :=
  match chainMarginActivation.lookup (chain ++ ":" ++ network) with
  | some height => height
  | none => (chainMarginActivation.lookup network).join

/- The row's own height selects the era of its margin. -/
def rowMarginBlocks (table chain network : String) (admitBlock : ℤ) : ℤ :=
  match chainMarginBlocks table chain, activationHeight chain network with
  | some mChain, some height => if height ≤ admitBlock then mChain else baseMarginBlocks table
  | _, _ => baseMarginBlocks table

end Margins

abbrev Observation := Mark ℤ ℤ

structure Watermark where
  obs : OrderedMap String (List Observation)
  caps : OrderedMap (String × String) ℤ
  floor : OrderedMap (String × String) ℤ

def Watermark.empty : Watermark := ⟨OrderedMap.empty, OrderedMap.empty, OrderedMap.empty⟩

/- heights[table][chain] of a frame. -/
structure Claim where
  table : String
  chain : String
  height : ℤ
  deriving DecidableEq

def capped (caps : OrderedMap (String × String) ℤ) (table c : String) (h : ℤ) : ℤ :=
  match caps.get (table, c) with
  | none => h
  | some cap => min h cap

section Operations
variable (cfg : Config) (w : Watermark)

def Watermark.marks (c : String) : List Observation := (w.obs.get c).getD []

/- A reading that is no number, or no whole number in the safe range, is none. -/
def observeTip (chain : String) (height : Option ℤ) (at' : ℤ) : Watermark :=
  match normalizeChain chain, height with
  | some c, some h =>
    if usable h then
      let raised := raise (w.marks c) ⟨at', h⟩
      if raised = w.marks c then w
      else { w with obs := w.obs.set c (dropSettled (at' - cfg.longest) raised) }
    else w
  | _, _ => w

def settledHeight (c : String) (cutoff : ℤ) : Option ℤ := newest (w.marks c) cutoff

def setTableCap (table chain : String) (height : Option ℤ) : Watermark :=
  match normalizeChain chain, height with
  | none, _ => w
  | some c, none => { w with caps := w.caps.erase (table, c) }
  | some c, some h =>
    if h.natAbs ≤ maxSafeInteger.toNat then { w with caps := w.caps.set (table, c) h } else w

def installFloor (floor : OrderedMap (String × String) ℤ) (e : (String × String) × ℤ) :
    OrderedMap (String × String) ℤ :=
  match tableSpec e.1.1, normalizeChain e.1.2 with
  | some _, some c => if usable e.2 then floor.set (e.1.1, c) e.2 else floor
  | _, _ => floor

def setFloor (stored : List ((String × String) × ℤ)) : Watermark :=
  { w with floor := stored.foldl installFloor OrderedMap.empty }

/- What the observations and the floor justify, before the cap. -/
def level (table : String) (round : Rail) (c : String) (now : ℤ) : Option ℤ :=
  match (settledHeight w c (now - cfg.roundWindows round)).map (· - 1), w.floor.get (table, c) with
  | none, floor => floor
  | some base, none => some base
  | some base, some floor => some (max base floor)

def entryAt (table : String) (round : Rail) (c : String) (now : ℤ) : Option ℤ :=
  ((level cfg w table round c now).map (capped w.caps table c)).filter usable

def heights (now : ℤ) : List Claim :=
  admissionWatermarkTables.flatMap (fun t =>
    t.2.chains.filterMap (fun c => (entryAt cfg w t.1 t.2.round c now).map (fun h => ⟨t.1, c, h⟩)))

end Operations

/- What the refusal reads of a row. -/
structure Row where
  columns : AdmitColumns
  inMemory : Option AdmissionMap
  sourceChain : String
  admitBlock : Option AdmitHeight
  status : String
  deriving DecidableEq

/- The row's map: none where it cannot be read, an inner none for a legacy row. -/
def rowHeights (table : String) (row : Row) : Option (Option AdmissionMap) :=
  if table = "oracle_prices" then
    match row.admitBlock.bind columnNumber, normalizeChain row.sourceChain with
    | some h, some c => if isSafeInteger h then some (some [(c, .number h)]) else some none
    | _, _ => some none
  else rowAdmitBlocks row.columns row.inMemory

/- The round behind an entry of the map opened at a tip of its height less the margin. -/
def openingTip (cfg : Config) (table : String) (e : String × AdmitHeight) : Option ℤ :=
  match columnNumber e.2 with
  | some q => if isSafeInteger q then some (q.num - rowMarginBlocks table e.1 cfg.network q.num) else none
  | none => none

def isLateFinalization (cfg : Config) (w : Watermark) (table : String) (row : Row) (now : ℤ) : Bool :=
  if (tableSpec table).isNone then false
  else
    match rowHeights table row with
    | none => true
    | some none => false
    | some (some map) =>
      map.any (fun e => (heights cfg w now).any (fun k =>
        k.table = table && k.chain = e.1 && (openingTip cfg table e).any (· ≤ k.height)))

section Laws
variable {cfg : Config} {w : Watermark} {table : String} {round : Rail} {c : String} {now : ℤ}

theorem window_le_longest (cfg : Config) (r : Rail) : cfg.roundWindows r ≤ cfg.longest := by
  simp only [Config.longest, List.foldl_cons, List.foldl_nil]
  cases r <;> omega

theorem mem_heights {k : Claim} : k ∈ heights cfg w now ↔
    ∃ t ∈ admissionWatermarkTables, t.1 = k.table ∧ k.chain ∈ t.2.chains ∧
      entryAt cfg w k.table t.2.round k.chain now = some k.height := by
  unfold heights
  rw [List.mem_flatMap]
  constructor
  · rintro ⟨t, listed, member⟩
    obtain ⟨c, inside, found⟩ := List.mem_filterMap.mp member
    obtain ⟨h, entry, rfl⟩ := Option.map_eq_some_iff.mp found
    exact ⟨t, listed, rfl, inside, entry⟩
  · rintro ⟨t, listed, same, inside, entry⟩
    refine ⟨t, listed, List.mem_filterMap.mpr ⟨k.chain, inside, ?_⟩⟩
    rw [same, entry]
    rfl

theorem capped_le (caps : OrderedMap (String × String) ℤ) (table c : String) (h : ℤ) :
    capped caps table c h ≤ h := by
  unfold capped
  split
  · exact le_refl h
  · exact min_le_left h _

theorem capped_mono (caps : OrderedMap (String × String) ℤ) (table c : String) {h v : ℤ}
    (below : h ≤ v) : capped caps table c h ≤ capped caps table c v := by
  unfold capped
  split
  · exact below
  · exact min_le_min_right _ below

theorem entry_at_iff {h : ℤ} : entryAt cfg w table round c now = some h ↔
    ∃ v, level cfg w table round c now = some v ∧ capped w.caps table c v = h ∧ usable h = true := by
  unfold entryAt
  rw [Option.filter_eq_some_iff, Option.map_eq_some_iff]
  constructor
  · rintro ⟨⟨v, justified, same⟩, ok⟩
    exact ⟨v, justified, same, ok⟩
  · rintro ⟨v, justified, same, ok⟩
    exact ⟨⟨v, justified, same⟩, ok⟩

end Laws
end XChainHub.HubDb
