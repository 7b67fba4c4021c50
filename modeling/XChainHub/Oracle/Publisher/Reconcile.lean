import XChainHub.Library.OrderedMap
import XChainHub.Oracle.Consensus.Digest

/-!
The buffered rounds of the publisher against price_snapshots: oracle/publisher/buffer.js and
assembly.js, deriveWindow of oracle/batch_signer/follower.js and the rounds that
buildPriceBatchPayload of oracle/consensus.js signs. A function that throws returns none, and
an admission map that is no object is one that has no spelling.
-/
namespace XChainHub.Oracle.Publisher
open MirrorAdmissionGate NumberText Oracle.Consensus ScriptValue

section Signed

/- A round as the buffer holds it and as the canonical builder reads it. -/
structure RoundEntry where
  round : Value
  timestamp : Value
  btcBlockHeight : Value
  pairs : Value
  admitBlocks : Option AdmissionMap
  deriving DecidableEq

/- An entry of the signed payload. -/
structure SignedRound where
  round : Number
  timestamp : Number
  btcBlockHeight : Number
  pairs : List (Value × String)
  admitBlocks : Option String
  deriving DecidableEq

def admissionCanonicalValue (era : Bool) : Option AdmissionMap → Option (Option String)
  | none => some none
  | some map => if era then (encodeAdmitBlocks map).map some else some none

def signedPairs (js : Builtins) : Value → Option (List (Value × String))
  | .array items => if items.any Value.isNullish then none else some (signedEntries js items)
  | _ => none

def signedAdmit (g : RoundGates) (e : RoundEntry) : Option (Option String) :=
  admissionCanonicalValue (g.admissionEra (.number (parsed e.btcBlockHeight))) e.admitBlocks

def signedRound (js : Builtins) (g : RoundGates) (e : RoundEntry) : Option SignedRound :=
  (signedPairs js e.pairs).bind fun pairs =>
    (signedAdmit g e).map fun admits =>
      ⟨parsed e.round, parsed e.timestamp, parsed e.btcBlockHeight, pairs, admits⟩

end Signed

section Buffer

def keyText (p : Value) : String :=
  ((p.field "coinPair").orElse (p.field "pair")).asText ++ "=" ++ (p.field "price").asText

def inOrder (a b : String) : Prop := textLess b a = false

instance : DecidableRel inOrder := fun a b => inferInstanceAs (Decidable (textLess b a = false))

def pairKey (pairs : Value) : Option String :=
  match pairs.orElse (.array []) with
  | .array items =>
    if items.any Value.isNullish then none
    else some (String.intercalate "|" ((items.map keyText).insertionSort inOrder))
  | _ => none

def sameBufferedRound (a b : RoundEntry) : Option Bool :=
  if strictEquals (parsed a.round) (parsed b.round) &&
      strictEquals (parsed a.timestamp) (parsed b.timestamp) &&
      strictEquals (parsed a.btcBlockHeight) (parsed b.btcBlockHeight) then
    (pairKey a.pairs).bind fun key => (pairKey b.pairs).map fun other => key = other
  else some false

/- The publisher's rounds by number. -/
abbrev Buffer := OrderedMap Number RoundEntry

end Buffer

section Rows

/- A row as findPriceSnapshotsByRoundNumber reads it. -/
structure PriceRow where
  roundNumber : Value
  coinPair : Value
  price : Value
  referenceBlock : Value
  blockTimestamp : Value
  proofHead : String
  admits : AdmitColumns

structure DerivedRound where
  round : Number
  timestamp : Number
  btcBlockHeight : Number
  pairs : List (String × String)
  batchSourced : Bool
  admitBlocks : Option AdmissionMap
  deriving DecidableEq

abbrev DerivedRounds := OrderedMap Number DerivedRound

def pairObject (p : String × String) : Value :=
  .object [("pair", .text p.1), ("price", .text p.2)]

def DerivedRound.entry (d : DerivedRound) : RoundEntry :=
  ⟨.number d.round, .number d.timestamp, .number d.btcBlockHeight,
    .array (d.pairs.map pairObject), d.admitBlocks⟩

def rowPair (row : PriceRow) : String × String := (row.coinPair.asText, row.price.asText)

def batchSourced (row : PriceRow) : Bool := "\x7b\"batch\"".toList.isPrefixOf row.proofHead.toList

def newRound (row : PriceRow) (admits : Option AdmissionMap) : DerivedRound :=
  ⟨parsed row.roundNumber, parsed row.blockTimestamp, parsed row.referenceBlock, [rowPair row],
    batchSourced row, admits⟩

def DerivedRound.push (d : DerivedRound) (row : PriceRow) : DerivedRound :=
  { d with pairs := d.pairs ++ [rowPair row] }

def finite (n : Number) : Bool := n.rational.isSome

/- roundsFromSnapshotRows reads the admission columns of a round's first row. -/
def readSnapshotRow (derived : DerivedRounds) (row : PriceRow) : Option DerivedRounds :=
  let r := parsed row.roundNumber
  if !finite r then some derived
  else
    match derived.get r with
    | none => (columnsAdmitBlocks row.admits).map fun admits => derived.set r (newRound row admits)
    | some d => some (derived.set r (d.push row))

def roundsFromSnapshotRows (rows : List PriceRow) : Option DerivedRounds :=
  rows.foldlM readSnapshotRow .empty

/- deriveWindow reads them of every row and throws where two rows of a round differ. -/
def consistent (d : DerivedRound) (row : PriceRow) (admits : Option AdmissionMap) : Bool :=
  strictEquals (parsed row.blockTimestamp) d.timestamp &&
    strictEquals (parsed row.referenceBlock) d.btcBlockHeight &&
    match admits, d.admitBlocks with
    | none, none => true
    | some map, some held =>
      match encodeAdmitBlocks map, encodeAdmitBlocks held with
      | some a, some b => a = b
      | _, _ => false
    | _, _ => false

def deriveRow (byRound : DerivedRounds) (row : PriceRow) : Option DerivedRounds :=
  let r := parsed row.roundNumber
  if !finite r then some byRound
  else
    (columnsAdmitBlocks row.admits).bind fun admits =>
      match byRound.get r with
      | none => some (byRound.set r (newRound row admits))
      | some d => if consistent d row admits then some (byRound.set r (d.push row)) else none

/- The follower's rounds, before it puts them in order. -/
def deriveWindow (rows : List PriceRow) : Option DerivedRounds := rows.foldlM deriveRow .empty

end Rows

section Reconcile

def finiteValue : Value → Bool
  | .number n => finite n
  | _ => false

def pricedPair (p : Value) : Bool :=
  !(p.field "pair").isFalsy && p.field "pair" ≠ .text "undefined" &&
    !(p.field "price").isNullish && p.field "price" ≠ .text "" && p.field "price" ≠ .text "null" &&
      p.field "price" ≠ .text "undefined"

def wellFormedRound (e : RoundEntry) : Bool :=
  finiteValue e.round && finiteValue e.timestamp && finiteValue e.btcBlockHeight &&
    match e.pairs with
    | .array items => !items.isEmpty && items.all pricedPair
    | _ => false

def reconcileRound (buffer : Buffer) (e : Number × DerivedRound) : Option Buffer :=
  match buffer.get e.1 with
  | none => some buffer
  | some buffered =>
    if e.2.batchSourced then some (buffer.erase e.1)
    else if !wellFormedRound e.2.entry then some buffer
    else
      (sameBufferedRound buffered e.2.entry).map fun same =>
        if same then buffer else buffer.set e.1 e.2.entry

def reconcileBufferedWindow (buffer : Buffer) (rows : List PriceRow) : Option Buffer :=
  (roundsFromSnapshotRows rows).bind fun derived => derived.entries.foldlM reconcileRound buffer

end Reconcile

section Rebuilding
variable {rows : List PriceRow}

/-- What the follower derives, the publisher reads off the same rows. -/
theorem derived_row {held next : DerivedRounds} {row : PriceRow}
    (derived : deriveRow held row = some next) : readSnapshotRow held row = some next := by
  unfold deriveRow at derived
  unfold readSnapshotRow
  dsimp only at derived ⊢
  split
  · rename_i skipped
    rwa [if_pos skipped] at derived
  · rename_i numbered
    rw [if_neg numbered] at derived
    obtain ⟨admits, columns, placed⟩ := Option.bind_eq_some_iff.mp derived
    split at placed
    · rw [columns]
      exact placed
    · split at placed
      · exact placed
      · cases placed

theorem derived_rounds {held derived : DerivedRounds}
    (done : rows.foldlM deriveRow held = some derived) :
    rows.foldlM readSnapshotRow held = some derived := by
  induction rows generalizing held with
  | nil => exact done
  | cons row rows ih =>
    rw [List.foldlM_cons] at done ⊢
    obtain ⟨next, one, rest⟩ := Option.bind_eq_some_iff.mp done
    exact Option.bind_eq_some_iff.mpr ⟨next, derived_row one, ih rest⟩

variable {buffer after : Buffer}

theorem reconcile_other {e : Number × DerivedRound} {r : Number} (other : r ≠ e.1)
    (done : reconcileRound buffer e = some after) : after.get r = buffer.get r := by
  unfold reconcileRound at done
  split at done
  · rw [Option.some.inj done]
  · split at done
    · rw [← Option.some.inj done, OrderedMap.get_erase_other other]
    · split at done
      · rw [Option.some.inj done]
      · obtain ⟨same, -, rfl⟩ := Option.map_eq_some_iff.mp done
        split
        · rfl
        · rw [OrderedMap.get_set_other other]

theorem reconcile_held {r : Number} {d : DerivedRound} {e : RoundEntry}
    (buffered : buffer.get r = some e) (own : d.batchSourced = false)
    (formed : wellFormedRound d.entry = true) (done : reconcileRound buffer (r, d) = some after) :
    ∃ same, sameBufferedRound e d.entry = some same ∧
      after.get r = some (if same then e else d.entry) := by
  simp only [reconcileRound, buffered, own, formed, Bool.false_eq_true, Bool.not_true, if_false]
    at done
  obtain ⟨same, compared, rfl⟩ := Option.map_eq_some_iff.mp done
  refine ⟨same, compared, ?_⟩
  cases same with
  | false => simp
  | true => simp [buffered]

theorem untouched_round {ds : List (Number × DerivedRound)} {r : Number}
    (absent : r ∉ ds.map Prod.fst) (done : ds.foldlM reconcileRound buffer = some after) :
    after.get r = buffer.get r := by
  induction ds generalizing buffer with
  | nil => rw [Option.some.inj done]
  | cons e ds ih =>
    simp only [List.map_cons, List.mem_cons, not_or] at absent
    rw [List.foldlM_cons] at done
    obtain ⟨next, one, rest⟩ := Option.bind_eq_some_iff.mp done
    rw [ih absent.2 rest, reconcile_other absent.1 one]

/-- A derived round meets what the buffer held for it, once. -/
theorem reconciled_round {ds : List (Number × DerivedRound)} (distinct : (ds.map Prod.fst).Nodup)
    {r : Number} {d : DerivedRound} {e : RoundEntry} (listed : (r, d) ∈ ds)
    (buffered : buffer.get r = some e) (own : d.batchSourced = false)
    (formed : wellFormedRound d.entry = true)
    (done : ds.foldlM reconcileRound buffer = some after) :
    ∃ same, sameBufferedRound e d.entry = some same ∧
      after.get r = some (if same then e else d.entry) := by
  induction ds generalizing buffer with
  | nil => exact absurd listed (by simp)
  | cons first ds ih =>
    rw [List.map_cons, List.nodup_cons] at distinct
    rw [List.foldlM_cons] at done
    obtain ⟨next, one, rest⟩ := Option.bind_eq_some_iff.mp done
    rcases List.mem_cons.mp listed with rfl | later
    · obtain ⟨same, compared, held⟩ := reconcile_held buffered own formed one
      exact ⟨same, compared, by rw [untouched_round distinct.1 rest, held]⟩
    · have other : r ≠ first.1 := fun same =>
        distinct.1 (same ▸ List.mem_map_of_mem (f := Prod.fst) later)
      exact ih distinct.2 later ((reconcile_other other one).trans buffered) rest

end Rebuilding

section Agreement
variable {js : Builtins} {g : RoundGates}

theorem strict_equal {a b : Number} (equal : strictEquals a b = true) : a = b := by
  simp only [strictEquals, Bool.and_eq_true, decide_eq_true_eq] at equal
  exact equal.2

theorem same_header {e f : RoundEntry} (same : sameBufferedRound e f = some true) :
    parsed e.round = parsed f.round ∧ parsed e.timestamp = parsed f.timestamp ∧
      parsed e.btcBlockHeight = parsed f.btcBlockHeight := by
  unfold sameBufferedRound at same
  split at same
  · rename_i header
    simp only [Bool.and_eq_true] at header
    exact ⟨strict_equal header.1.1, strict_equal header.1.2, strict_equal header.2⟩
  · cases same

/-- Entries with one header sign alike just where their pairs and their maps do. -/
theorem signed_alike {e f : RoundEntry} {s : SignedRound}
    (same : sameBufferedRound e f = some true) (built : signedRound js g f = some s) :
    signedRound js g e = some s ↔
      signedPairs js e.pairs = signedPairs js f.pairs ∧ signedAdmit g e = signedAdmit g f := by
  obtain ⟨round, timestamp, height⟩ := same_header same
  obtain ⟨pairs, listed, rest⟩ := Option.bind_eq_some_iff.mp built
  obtain ⟨admits, mapped, rfl⟩ := Option.map_eq_some_iff.mp rest
  rw [listed, mapped]
  constructor
  · intro signed
    obtain ⟨pairs', listed', rest'⟩ := Option.bind_eq_some_iff.mp signed
    obtain ⟨admits', mapped', equal⟩ := Option.map_eq_some_iff.mp rest'
    rw [SignedRound.mk.injEq] at equal
    exact ⟨by rw [listed', equal.2.2.2.1], by rw [mapped', equal.2.2.2.2]⟩
  · rintro ⟨listed', mapped'⟩
    rw [signedRound, listed', mapped', round, timestamp, height]
    rfl

end Agreement

section Sample

def samplePriceRow (admitted : ℕ) : PriceRow :=
  ⟨.number (.ofNat 7), .text "BTC-USD", .text "50000", .number (.ofNat 150000),
    .number (.ofNat 1788), "[\x7b\"pubke", ⟨some (.number admitted), none, none⟩⟩

def sampleBuffered (timestamp admitted : ℕ) : RoundEntry :=
  ⟨.number (.ofNat 7), .number (.ofNat timestamp), .number (.ofNat 150000),
    .array [pairObject ("BTC-USD", "50000")], some [("BTC", .number admitted)]⟩

def sampleBufferOf (timestamp admitted : ℕ) : Buffer :=
  OrderedMap.empty.set (.ofNat 7) (sampleBuffered timestamp admitted)

def sampleGates : RoundGates := ⟨"testnet", fun _ => true, fun _ => none⟩

def sampleDerived (admitted : ℕ) : DerivedRound :=
  newRound (samplePriceRow admitted) (some [("BTC", .number admitted)])

def sampleSigned (admitted : ℕ) : SignedRound :=
  ⟨.ofNat 7, .ofNat 1788, .ofNat 150000, [(.text "BTC-USD", "50000")],
    some ("BTC:" ++ toString admitted)⟩

theorem sample_round_derived : ∃ mine, deriveWindow [samplePriceRow 110] = some mine ∧
    mine.get (.ofNat 7) = some (sampleDerived 110) :=
  Option.bind_eq_some_iff.mp (show (deriveWindow [samplePriceRow 110]).bind
    (fun mine => mine.get (.ofNat 7)) = some (sampleDerived 110) by decide +kernel)

theorem sample_round_built : signedRound decimalBuiltins sampleGates (sampleDerived 110).entry =
    some (sampleSigned 110) := by
  decide +kernel

end Sample
end XChainHub.Oracle.Publisher
