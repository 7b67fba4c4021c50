import Mathlib
import XChainHub.Library.GatheredKeys
import XChainHub.Library.JsonText

/-!
The walk that catches one table up from a peer, peers/hub_db/peer_catchup.js, with the row groups
of peers/hub_db/price_round_groups.js and the memo of peers/hub_db/refusal_memo.js.
-/
namespace XChainHub.HubDb.PeerCatchup
open GatheredKeys JsonText ScriptValue

section Rows

/- The columns are those beside the wire id, which a peer's table counts up. -/
structure SnapshotRow where
  id : ℕ
  columns : List (String × Value)
  deriving DecidableEq

def SnapshotRow.column (row : SnapshotRow) (name : String) : Value :=
  (Value.object row.columns).field name

def withoutWireId (row : SnapshotRow) : List (String × Value) := row.columns

def isProducerRoundRow (row : SnapshotRow) : Bool :=
  (row.column "status").textOf = some "finalized" &&
  (row.column "source_chain").isNullish &&
  (row.column "reference_chain").textOf = some "BTC" &&
  match (row.column "consensus_proof").textOf with
  | some proof => proof.toList.head? = some '['
  | none => false

variable (js : Builtins)

def groupKey (row : SnapshotRow) : Option String :=
  if isProducerRoundRow row then
    some (stringify (.array
      [.number ((row.column "round_number").asNumber js), row.column "consensus_proof"]))
  else none

def indexGroups (rows : List SnapshotRow) : OrderedMap String (List SnapshotRow) :=
  rows.foldl (fun groups row =>
    match groupKey js row with
    | none => groups
    | some key => groups.set key ((groups.get key).getD [] ++ [row])) OrderedMap.empty

/- groupKey(row) || 'row:' + row.id. -/
def batchKey (row : SnapshotRow) : String := (groupKey js row).getD ("row:" ++ toString row.id)

structure Batch where
  ready : List SnapshotRow
  held : List SnapshotRow

/- The loop that goes back while the row in front has the key. -/
def trailingStart (rows : List SnapshotRow) (key : String) : ℕ → ℕ
  | 0 => 0
  | start + 1 =>
    if rows[start]?.bind (groupKey js) = some key then trailingStart rows key start else start + 1

def holdTrailingGroup (rows : List SnapshotRow) (pageIsFull : Bool) : Batch :=
  match rows.getLast?.bind (groupKey js) with
  | none => ⟨rows, []⟩
  | some key =>
    if pageIsFull then
      ⟨rows.take (trailingStart js rows key rows.length),
        rows.drop (trailingStart js rows key rows.length)⟩
    else ⟨rows, []⟩

def maxSafeInteger : ℕ := 9007199254740991

def advanceCursor : ℕ → List SnapshotRow → Except String ℕ
  | cursor, [] => .ok cursor
  | cursor, row :: rows =>
    if maxSafeInteger < row.id ∨ row.id ≤ cursor then
      .error "Snapshot row has a non-advancing wire id"
    else advanceCursor row.id rows

end Rows

section Walk

/- `passed` is every verdict but false, null and an object whose ok is false. -/
inductive Verdict where
  | passed
  | denied
  | refusal (retry retryable : Bool)

def verifierAccepted : Verdict → Bool
  | .passed => true
  | _ => false

def Verdict.retries : Verdict → Bool
  | .refusal retry retryable => retry || retryable
  | _ => false

/- `known` is KNOWN_REFUSAL. -/
inductive WalkVerdict where
  | known
  | judged (verdict : Verdict)

/- What a walk is given: the hub's reader and writer of rows, the table's verifier with the
indexer reads of the run, and the memo's key and bound. -/
structure Hub (σ : Type) where
  hasRow : List (String × Value) → EStateM String σ Bool
  verifier : SnapshotRow → Option (List SnapshotRow) → EStateM String σ Verdict
  storeRow : List (String × Value) → EStateM String σ Unit
  reads : Bool
  failedServes : σ → ℕ
  keyFor : SnapshotRow → String
  maxEntries : ℕ

/- `calls` and `stored` record what was handed to the verifier and to the writer. -/
structure Walk (σ : Type) where
  hub : σ
  refusals : List String
  leftBehind : Bool
  refused : ℕ
  knownRefused : ℕ
  calls : List (SnapshotRow × Option (List SnapshotRow))
  stored : List (List (String × Value))

def Walk.start {σ : Type} (hub : σ) (refusals : List String) : Walk σ :=
  ⟨hub, refusals, false, 0, 0, [], []⟩

/- The oldest keys leave a memo that grew past its bound. -/
def remember (limit : ℕ) (keys : List String) (key : String) : List String :=
  let grown := keys.filter (· ≠ key) ++ [key]
  grown.drop (grown.length - limit)

variable {σ : Type} (js : Builtins) (hub : Hub σ)

def onHub {β : Type} (act : EStateM String σ β) : EStateM String (Walk σ) β := fun walk =>
  match act walk.hub with
  | .ok value after => .ok value { walk with hub := after }
  | .error failure after => .error failure { walk with hub := after }

/- A verifier that throws has refused. -/
def verifyRow (row : SnapshotRow) (group : Option (List SnapshotRow)) :
    EStateM String (Walk σ) Verdict := fun walk =>
  match hub.verifier row group walk.hub with
  | .ok verdict after =>
    .ok verdict { walk with hub := after, calls := walk.calls ++ [(row, group)] }
  | .error _ after =>
    .ok (.refusal false false) { walk with hub := after, calls := walk.calls ++ [(row, group)] }

/- A refusal that a later walk may take back leaves the table behind, any other is remembered. -/
def noteRefusal (row : SnapshotRow) (failedBefore : ℕ) (verdict : Verdict) (walk : Walk σ) :
    Walk σ :=
  if verdict.retries then { walk with leftBehind := true }
  else if hub.reads && failedBefore < hub.failedServes walk.hub then
    { walk with leftBehind := true }
  else { walk with refusals := remember hub.maxEntries walk.refusals (hub.keyFor row) }

def verifyWalkRow (row : SnapshotRow) (group : Option (List SnapshotRow)) :
    EStateM String (Walk σ) WalkVerdict := do
  let before ← get
  if hub.keyFor row ∈ before.refusals then return .known
  let verdict ← verifyRow hub row group
  if verifierAccepted verdict then return .judged verdict
  modify (noteRefusal hub row (hub.failedServes before.hub) verdict)
  return .judged verdict

def countRefusal (verdict : WalkVerdict) (walk : Walk σ) : Walk σ :=
  match verdict with
  | .known =>
    { walk with refused := walk.refused + 1, knownRefused := walk.knownRefused + 1 }
  | .judged _ => { walk with refused := walk.refused + 1 }

def storeRow (columns : List (String × Value)) : EStateM String (Walk σ) Unit := do
  modify (fun walk => { walk with stored := walk.stored ++ [columns] })
  onHub (hub.storeRow columns)

def settle (row : SnapshotRow) (verdict : WalkVerdict) : EStateM String (Walk σ) Unit :=
  match verdict with
  | .judged .passed => storeRow hub (withoutWireId row)
  | refused => modify (countRefusal refused)

def processRows (groups : OrderedMap String (List SnapshotRow)) :
    List SnapshotRow → OrderedMap String WalkVerdict → EStateM String (Walk σ) Unit
  | [], _ => pure ()
  | row :: rows, verdicts => do
    if ← onHub (hub.hasRow (withoutWireId row)) then processRows groups rows verdicts
    else
      match verdicts.get (batchKey js row) with
      | some verdict =>
        settle hub row verdict
        processRows groups rows verdicts
      | none =>
        let verdict ← verifyWalkRow hub row (groups.get (batchKey js row))
        settle hub row verdict
        processRows groups rows (verdicts.set (batchKey js row) verdict)

def processBatch (rows : List SnapshotRow) : EStateM String (Walk σ) Unit :=
  processRows js hub (indexGroups js rows) rows OrderedMap.empty

def schemaVersion : ℕ := 11

/- A body whose rows are no array has none. -/
structure Page where
  table : String
  schema_version : ℕ
  rows : Option (List SnapshotRow)

/- One answer of fetchPage, read to its rows. -/
def pageRows (table : String) (page : Page) : Except String (List SnapshotRow) :=
  match page.rows with
  | none => .error ("Invalid snapshot page for " ++ table)
  | some rows =>
    if page.table ≠ table then .error ("Invalid snapshot page for " ++ table)
    else if page.schema_version ≠ schemaVersion then
      .error ("Snapshot page for " ++ table ++ " has schema_version " ++
        toString page.schema_version ++ ", expected " ++ toString schemaVersion)
    else .ok rows

def orThrow {β : Type} : Except String β → EStateM String (Walk σ) β
  | .ok value => pure value
  | .error failure => throw failure

/- The loop over the pages; none when the steps given do not reach the table's end. -/
def catchUpTable (fetchPage : ℕ → ℕ → Except String Page) (table : String) (pageSize : ℕ) :
    ℕ → ℕ → List SnapshotRow → EStateM String (Walk σ) (Option Bool)
  | 0, _, _ => pure none
  | steps + 1, cursor, carry => do
    let page ← orThrow (fetchPage cursor pageSize)
    let rows ← orThrow (pageRows table page)
    let next ← orThrow (advanceCursor cursor rows)
    let full := decide (pageSize ≤ rows.length)
    let batch := holdTrailingGroup js (carry ++ rows) full
    processBatch js hub batch.ready
    if full then catchUpTable fetchPage table pageSize steps next batch.held
    else return some (← get).leftBehind

end Walk

section Served

/- What a peer serves in the order of its ids. -/
structure PeerTable where
  name : String
  rows : List SnapshotRow
  increasing : rows.Pairwise (fun a b => a.id < b.id)
  positive : ∀ r ∈ rows, 0 < r.id
  safe : ∀ r ∈ rows, r.id ≤ maxSafeInteger

/- The snapshot routes cap the limit they are asked for. -/
def routeLimit : ℕ := 10000

def PeerTable.fetchPage (peer : PeerTable) (since limit : ℕ) : Except String Page :=
  .ok ⟨peer.name, schemaVersion,
    some ((peer.rows.filter (fun r => since < r.id)).take (min limit routeLimit))⟩

def walkTable {σ : Type} (js : Builtins) (hub : Hub σ) (peer : PeerTable) (pageSize steps : ℕ) :
    EStateM String (Walk σ) (Option Bool) :=
  catchUpTable js hub peer.fetchPage peer.name pageSize steps 0 []

end Served

section Groups
variable (js : Builtins)

/- The rows of a row's round among these rows, for a row of a producer round. -/
def roundOf (rows : List SnapshotRow) (row : SnapshotRow) : Option (List SnapshotRow) :=
  (groupKey js row).map (fun key => ofKey (groupKey js) key rows)

variable {js}

theorem index_groups_get (rows : List SnapshotRow) (key : String) :
    (indexGroups js rows).get key =
      if ofKey (groupKey js) key rows = [] then none else some (ofKey (groupKey js) key rows) := by
  induction rows using List.reverseRecOn with
  | nil => simp [indexGroups]
  | append_singleton rows row ih =>
    have step : indexGroups js (rows ++ [row]) =
        match groupKey js row with
        | none => indexGroups js rows
        | some other => (indexGroups js rows).set other
            (((indexGroups js rows).get other).getD [] ++ [row]) := by
      simp only [indexGroups, List.foldl_append, List.foldl_cons, List.foldl_nil]
    rw [step, of_key_append]
    cases keyed : groupKey js row with
    | none => simp [ih, ofKey, keyed]
    | some other =>
      by_cases same : key = other
      · subst same
        have single : ofKey (groupKey js) key [row] = [row] := by simp [ofKey, keyed]
        rw [single, if_neg (by simp)]
        show OrderedMap.get (OrderedMap.set _ _ _) key = _
        rw [OrderedMap.get_set_same, ih]
        split
        · rename_i none_before
          rw [none_before, Option.getD_none]
        · rw [Option.getD_some]
      · have elsewhere : ¬ other = key := fun equal => same equal.symm
        simp [OrderedMap.get_set_other same, ih, ofKey, keyed, elsewhere]

theorem group_key_head {row : SnapshotRow} {key : String} (keyed : groupKey js row = some key) :
    key.toList.head? = some '[' := by
  unfold groupKey at keyed
  split at keyed
  · rw [← Option.some.inj keyed]
    simp [stringify, json]
  · simp at keyed

theorem batch_key_grouped {row : SnapshotRow} {key : String} (keyed : groupKey js row = some key) :
    batchKey js row = key := by
  simp [batchKey, keyed]

theorem batch_key_alone {row : SnapshotRow} (alone : groupKey js row = none) :
    batchKey js row = "row:" ++ toString row.id := by
  simp [batchKey, alone]

/-- No row's own key is a round's. -/
theorem batch_key_alone_head {row : SnapshotRow} (alone : groupKey js row = none) :
    (batchKey js row).toList.head? = some 'r' := by
  rw [batch_key_alone alone, String.toList_append]
  rfl

theorem batch_key_inj {row other : SnapshotRow} (same : batchKey js row = batchKey js other) :
    (∃ key, groupKey js row = some key ∧ groupKey js other = some key) ∨ row.id = other.id := by
  cases first : groupKey js row with
  | some key =>
    rw [batch_key_grouped first] at same
    cases second : groupKey js other with
    | some key' =>
      rw [batch_key_grouped second] at same
      exact Or.inl ⟨key, rfl, by rw [same]⟩
    | none =>
      have head := group_key_head first
      rw [same, batch_key_alone_head second] at head
      simp at head
  | none =>
    cases second : groupKey js other with
    | some key' =>
      rw [batch_key_grouped second] at same
      have head := group_key_head second
      rw [← same, batch_key_alone_head first] at head
      simp at head
    | none =>
      rw [batch_key_alone first, batch_key_alone second] at same
      have texts : (toString row.id) = toString other.id := by
        have chars := congrArg String.toList same
        simp only [String.toList_append, List.append_cancel_left_eq] at chars
        exact String.toList_inj.mp chars
      exact Or.inr (Nat.repr_injective texts)

/-- What processBatch hands to the verifier beside a row. -/
theorem index_groups_at {rows : List SnapshotRow} {row : SnapshotRow} (member : row ∈ rows) :
    (indexGroups js rows).get (batchKey js row) = roundOf js rows row := by
  rw [index_groups_get]
  cases keyed : groupKey js row with
  | none =>
    have empty : ofKey (groupKey js) (batchKey js row) rows = [] := by
      apply of_key_none
      intro r _ claimed
      have head := group_key_head claimed
      rw [batch_key_alone_head keyed] at head
      simp at head
    simp [empty, roundOf, keyed]
  | some key =>
    have held : row ∈ ofKey (groupKey js) key rows := mem_of_key.mpr ⟨member, keyed⟩
    have filled : ofKey (groupKey js) key rows ≠ [] := List.ne_nil_of_mem held
    rw [batch_key_grouped keyed, if_neg filled]
    simp [roundOf, keyed]

/-- Rows of different rounds and ids share no verdict. -/
theorem batch_keys_apart {xs ys : List SnapshotRow} (apart : Apart (groupKey js) xs ys)
    (ids : ∀ x ∈ xs, ∀ y ∈ ys, x.id < y.id) {x y : SnapshotRow} (left : x ∈ xs) (right : y ∈ ys) :
    batchKey js x ≠ batchKey js y := by
  intro same
  rcases batch_key_inj same with ⟨key, first, second⟩ | equal
  · exact apart x left y right key first second
  · have earlier := ids x left y right
    omega

theorem round_of_left {xs ys : List SnapshotRow} (apart : Apart (groupKey js) xs ys)
    {x : SnapshotRow} (member : x ∈ xs) : roundOf js (xs ++ ys) x = roundOf js xs x := by
  cases keyed : groupKey js x with
  | none => simp [roundOf, keyed]
  | some key => simp [roundOf, keyed, apart.of_key_left member keyed]

theorem round_of_right {xs ys : List SnapshotRow} (apart : Apart (groupKey js) xs ys)
    {y : SnapshotRow} (member : y ∈ ys) : roundOf js (xs ++ ys) y = roundOf js ys y := by
  cases keyed : groupKey js y with
  | none => simp [roundOf, keyed]
  | some key => simp [roundOf, keyed, apart.of_key_right member keyed]

end Groups

section Holding
variable {js : Builtins}

variable (js) in
theorem trailing_start_le (rows : List SnapshotRow) (key : String) (n : ℕ) :
    trailingStart js rows key n ≤ n := by
  induction n with
  | zero => exact Nat.le_refl 0
  | succ n ih =>
    unfold trailingStart
    split
    · omega
    · omega

variable (js) in
theorem trailing_start_keyed (rows : List SnapshotRow) (key : String) (n : ℕ) :
    ∀ i, trailingStart js rows key n ≤ i → i < n → rows[i]?.bind (groupKey js) = some key := by
  induction n with
  | zero =>
    intro i _ below
    omega
  | succ n ih =>
    intro i above below
    unfold trailingStart at above
    split at above
    · rename_i keyed
      by_cases top : i = n
      · rw [top]
        exact keyed
      · exact ih i above (by omega)
    · omega

variable (js) in
theorem trailing_start_stops (rows : List SnapshotRow) (key : String) (n : ℕ) :
    ∀ i, trailingStart js rows key n = i + 1 → rows[i]?.bind (groupKey js) ≠ some key := by
  induction n with
  | zero =>
    intro i stop
    simp [trailingStart] at stop
  | succ n ih =>
    intro i stop
    unfold trailingStart at stop
    split at stop
    · exact ih i stop
    · rename_i other
      have top : n = i := by omega
      rw [← top]
      exact other

variable (js) in
theorem hold_split (rows : List SnapshotRow) (pageIsFull : Bool) :
    (holdTrailingGroup js rows pageIsFull).ready ++ (holdTrailingGroup js rows pageIsFull).held =
      rows := by
  unfold holdTrailingGroup
  split
  · exact List.append_nil rows
  · split
    · exact List.take_append_drop _ rows
    · exact List.append_nil rows

theorem hold_short (rows : List SnapshotRow) :
    holdTrailingGroup js rows false = ⟨rows, []⟩ := by
  unfold holdTrailingGroup
  split <;> rfl

/-- What is held has the key of the last row. -/
theorem held_keyed {rows : List SnapshotRow} {row : SnapshotRow}
    (member : row ∈ (holdTrailingGroup js rows true).held) :
    ∃ key, rows.getLast?.bind (groupKey js) = some key ∧ groupKey js row = some key := by
  unfold holdTrailingGroup at member
  split at member
  · simp at member
  · rename_i key last
    simp only [if_true] at member
    obtain ⟨i, found⟩ := List.mem_iff_getElem?.mp member
    rw [List.getElem?_drop] at found
    have bound : trailingStart js rows key rows.length + i < rows.length :=
      (List.getElem?_eq_some_iff.mp found).1
    have keyed := trailing_start_keyed js rows key rows.length _ (Nat.le_add_right _ i) bound
    rw [found] at keyed
    exact ⟨key, last, keyed⟩

/-- The row in front of what is held has another key. -/
theorem ready_ends {rows front : List SnapshotRow} {last : SnapshotRow}
    (ends : (holdTrailingGroup js rows true).ready = front ++ [last]) :
    ∀ key, rows.getLast?.bind (groupKey js) = some key → groupKey js last ≠ some key := by
  intro key final
  unfold holdTrailingGroup at ends
  rw [final] at ends
  simp only [if_true] at ends
  have within := trailing_start_le js rows key rows.length
  have size : trailingStart js rows key rows.length = front.length + 1 := by
    have lengths := congrArg List.length ends
    simp only [List.length_take, List.length_append, List.length_singleton] at lengths
    omega
  have found : rows[front.length]? = some last := by
    have entry : (rows.take (trailingStart js rows key rows.length))[front.length]? = some last := by
      rw [ends]
      simp
    rw [List.getElem?_take] at entry
    split at entry
    · exact entry
    · simp at entry
  have stop := trailing_start_stops js rows key rows.length front.length size
  rw [found] at stop
  exact stop

/-- No round lies on both sides of a full page's cut, whatever the later pages hold. -/
theorem hold_apart {rows more : List SnapshotRow}
    (gathered : Gathered (groupKey js) (rows ++ more)) :
    Apart (groupKey js) (holdTrailingGroup js rows true).ready
      ((holdTrailingGroup js rows true).held ++ more) := by
  rcases List.eq_nil_or_concat (holdTrailingGroup js rows true).ready with none_ready | ⟨front, last, ends⟩
  · intro x left
    rw [none_ready] at left
    simp at left
  · rw [List.concat_eq_append] at ends
    have whole : rows ++ more =
        front ++ [last] ++ ((holdTrailingGroup js rows true).held ++ more) := by
      rw [← ends, ← List.append_assoc, hold_split]
    rw [whole] at gathered
    rw [ends]
    apply apart_of_cut gathered
    intro key keyed y right same
    by_cases nothing : (holdTrailingGroup js rows true).held = []
    · have split := hold_split js rows true
      rw [nothing, List.append_nil, ends] at split
      have final : rows.getLast?.bind (groupKey js) = some key := by
        rw [← split]
        simpa using keyed
      exact ready_ends ends key final keyed
    · obtain ⟨z, held⟩ := List.exists_mem_of_ne_nil _ nothing
      obtain ⟨trailing, final, trails⟩ := held_keyed held
      have other := ready_ends ends trailing final
      rcases List.mem_append.mp right with inside | later
      · obtain ⟨trailing', final', follows⟩ := held_keyed inside
        rw [final] at final'
        rw [keyed, ← same, follows, Option.some.inj final'] at other
        exact other rfl
      · -- The held row stands between the two.
        have three : [last, z, y].Sublist
            (front ++ [last] ++ ((holdTrailingGroup js rows true).held ++ more)) := by
          have tail : [z, y].Sublist ((holdTrailingGroup js rows true).held ++ more) :=
            (List.singleton_sublist.mpr held).append (List.singleton_sublist.mpr later)
          exact (List.sublist_append_right front [last]).append tail
        have middle := gathered last z y three key keyed same
        rw [keyed, ← middle, trails] at other
        exact other rfl

end Holding

section Batches
variable {σ : Type} (js : Builtins) (hub : Hub σ)

/-- A batch reads only what its own rows' keys name. -/
theorem process_rows_congr {groups others : OrderedMap String (List SnapshotRow)}
    (rows : List SnapshotRow)
    (same : ∀ r ∈ rows, groups.get (batchKey js r) = others.get (batchKey js r)) :
    ∀ verdicts verdicts' : OrderedMap String WalkVerdict,
      (∀ r ∈ rows, verdicts.get (batchKey js r) = verdicts'.get (batchKey js r)) →
      processRows js hub groups rows verdicts = processRows js hub others rows verdicts' := by
  induction rows with
  | nil =>
    intro verdicts verdicts' _
    rfl
  | cons row rows ih =>
    intro verdicts verdicts' agree
    have later := ih (fun r member => same r (List.mem_cons_of_mem row member))
    have rest : ∀ r ∈ rows, verdicts.get (batchKey js r) = verdicts'.get (batchKey js r) :=
      fun r member => agree r (List.mem_cons_of_mem row member)
    have grown : ∀ verdict, ∀ r ∈ rows,
        (verdicts.set (batchKey js row) verdict).get (batchKey js r) =
          (verdicts'.set (batchKey js row) verdict).get (batchKey js r) := by
      intro verdict r member
      by_cases equal : batchKey js r = batchKey js row
      · rw [equal, OrderedMap.get_set_same, OrderedMap.get_set_same]
      · rw [OrderedMap.get_set_other equal, OrderedMap.get_set_other equal]
        exact rest r member
    simp only [processRows]
    apply bind_congr
    intro had
    rw [agree row List.mem_cons_self, same row List.mem_cons_self, later verdicts verdicts' rest]
    split
    · rfl
    · split
      · rfl
      · apply bind_congr
        intro verdict
        apply bind_congr
        intro _
        exact later _ _ (grown verdict)

/-- Rows behind that share no key with the rows in front are a batch of their own. -/
theorem process_rows_append (groups : OrderedMap String (List SnapshotRow))
    (xs ys : List SnapshotRow)
    (apart : ∀ x ∈ xs, ∀ y ∈ ys, batchKey js x ≠ batchKey js y) :
    ∀ verdicts, processRows js hub groups (xs ++ ys) verdicts =
      (do processRows js hub groups xs verdicts; processRows js hub groups ys verdicts) := by
  induction xs with
  | nil =>
    intro verdicts
    simp [processRows]
  | cons row xs ih =>
    intro verdicts
    have later := ih (fun x member => apart x (List.mem_cons_of_mem row member))
    have unseen : ∀ verdict, processRows js hub groups ys (verdicts.set (batchKey js row) verdict) =
        processRows js hub groups ys verdicts := by
      intro verdict
      apply process_rows_congr js hub ys (fun _ _ => rfl)
      intro y member
      exact OrderedMap.get_set_other (apart row List.mem_cons_self y member).symm
    simp only [List.cons_append, processRows, bind_assoc]
    apply bind_congr
    intro had
    split
    · exact later verdicts
    · split
      · simp only [bind_assoc, later]
      · simp only [bind_assoc, later, unseen]

theorem process_batch_append {xs ys : List SnapshotRow} (apart : Apart (groupKey js) xs ys)
    (ids : ∀ x ∈ xs, ∀ y ∈ ys, x.id < y.id) :
    processBatch js hub (xs ++ ys) = (do processBatch js hub xs; processBatch js hub ys) := by
  have keys : ∀ x ∈ xs, ∀ y ∈ ys, batchKey js x ≠ batchKey js y :=
    fun x left y right => batch_keys_apart apart ids left right
  have front : processRows js hub (indexGroups js (xs ++ ys)) xs OrderedMap.empty =
      processBatch js hub xs := by
    apply process_rows_congr js hub xs _ _ _ (fun _ _ => rfl)
    intro x member
    rw [index_groups_at (List.mem_append_left ys member), index_groups_at member,
      round_of_left apart member]
  have back : processRows js hub (indexGroups js (xs ++ ys)) ys OrderedMap.empty =
      processBatch js hub ys := by
    apply process_rows_congr js hub ys _ _ _ (fun _ _ => rfl)
    intro y member
    rw [index_groups_at (List.mem_append_right xs member), index_groups_at member,
      round_of_right apart member]
  rw [processBatch, process_rows_append js hub _ xs ys keys, front, back]

def processAll : List (List SnapshotRow) → EStateM String (Walk σ) Unit
  | [] => pure ()
  | rows :: batches => do
    processBatch js hub rows
    processAll batches

/- The batches that a walk makes of what is carried and the rows still to come. -/
def batches (pageSize : ℕ) : ℕ → List SnapshotRow → List SnapshotRow → List (List SnapshotRow)
  | 0, _, _ => []
  | steps + 1, carry, rest =>
    let page := rest.take (min pageSize routeLimit)
    let full := decide (pageSize ≤ page.length)
    let batch := holdTrailingGroup js (carry ++ page) full
    batch.ready :: if full then batches pageSize steps batch.held (rest.drop page.length) else []

end Batches

section Paging
variable {σ : Type} {js : Builtins} {hub : Hub σ}

theorem advance_cursor {rows : List SnapshotRow} :
    ∀ cursor, rows.Pairwise (fun a b => a.id < b.id) → (∀ r ∈ rows, cursor < r.id) →
      (∀ r ∈ rows, r.id ≤ maxSafeInteger) →
      ∃ next, advanceCursor cursor rows = .ok next ∧ cursor ≤ next ∧
        (∀ r ∈ rows, r.id ≤ next) ∧ (next = cursor ∨ ∃ r ∈ rows, r.id = next) := by
  induction rows with
  | nil =>
    intro cursor _ _ _
    exact ⟨cursor, rfl, Nat.le_refl cursor, by simp, Or.inl rfl⟩
  | cons row rows ih =>
    intro cursor increasing above safe
    obtain ⟨first, rest⟩ := List.pairwise_cons.mp increasing
    obtain ⟨next, advanced, more, bound, last⟩ := ih row.id rest first
      (fun r member => safe r (List.mem_cons_of_mem row member))
    have here := above row List.mem_cons_self
    have small := safe row List.mem_cons_self
    refine ⟨next, ?_, by omega, ?_, ?_⟩
    · unfold advanceCursor
      rw [if_neg (by omega)]
      exact advanced
    · intro r member
      rcases List.mem_cons.mp member with rfl | inside
      · exact more
      · exact bound r inside
    · rcases last with same | ⟨r, inside, same⟩
      · exact Or.inr ⟨row, List.mem_cons_self, same.symm⟩
      · exact Or.inr ⟨r, List.mem_cons_of_mem row inside, same⟩

/-- What is left to serve behind a page. -/
theorem served_behind {rows page rest : List SnapshotRow} {cursor next : ℕ}
    (left : rows.filter (fun r => cursor < r.id) = page ++ rest) (more : cursor ≤ next)
    (served : ∀ r ∈ page, r.id ≤ next) (ahead : ∀ r ∈ rest, next < r.id) :
    rows.filter (fun r => next < r.id) = rest := by
  have nested : rows.filter (fun r => next < r.id) =
      (rows.filter (fun r => cursor < r.id)).filter (fun r => next < r.id) := by
    rw [List.filter_filter]
    apply List.filter_congr
    intro r _
    by_cases later : next < r.id
    · simp [later, Nat.lt_of_le_of_lt more later]
    · simp [later]
  have gone : page.filter (fun r => next < r.id) = [] := by
    apply List.filter_eq_nil_iff.mpr
    intro r member
    have bound := served r member
    simpa using bound
  have kept : rest.filter (fun r => next < r.id) = rest := by
    apply List.filter_eq_self.mpr
    intro r member
    simpa using ahead r member
  rw [nested, left, List.filter_append, gone, kept, List.nil_append]

theorem page_and_rest (limit : ℕ) (rest : List SnapshotRow) :
    rest.take limit ++ rest.drop (rest.take limit).length = rest := by
  rcases Nat.le_total limit rest.length with within | beyond
  · rw [List.length_take, Nat.min_eq_left within]
    exact List.take_append_drop limit rest
  · rw [List.take_of_length_le beyond, List.drop_length, List.append_nil]

/-- The walk of a peer's table is its batches one after the other. -/
theorem walk_batches (peer : PeerTable) {pageSize : ℕ} (positive : 0 < pageSize) :
    ∀ steps cursor carry rest, rest.length < steps →
      peer.rows.filter (fun r => cursor < r.id) = rest →
      catchUpTable js hub peer.fetchPage peer.name pageSize steps cursor carry =
        (do processAll js hub (batches js pageSize steps carry rest)
            return some (← get).leftBehind) := by
  intro steps
  induction steps with
  | zero =>
    intro cursor carry rest enough
    omega
  | succ steps ih =>
    intro cursor carry rest enough left
    have part : rest.Sublist peer.rows := by
      rw [← left]
      exact List.filter_sublist
    have increasing : rest.Pairwise (fun a b => a.id < b.id) := peer.increasing.sublist part
    have above : ∀ r ∈ rest, cursor < r.id := by
      intro r member
      rw [← left] at member
      simpa using (List.mem_filter.mp member).2
    have fetched : peer.fetchPage cursor pageSize =
        .ok ⟨peer.name, schemaVersion, some (rest.take (min pageSize routeLimit))⟩ := by
      rw [PeerTable.fetchPage, left]
    simp only [catchUpTable, batches, fetched, pageRows, orThrow, pure_bind, ne_eq, not_true_eq_false,
      if_false]
    generalize page_is : rest.take (min pageSize routeLimit) = page
    have cut : page ++ rest.drop page.length = rest := by
      rw [← page_is]
      exact page_and_rest _ rest
    have ordered := increasing
    rw [← cut, List.pairwise_append] at ordered
    have among : ∀ r ∈ page, r ∈ rest := fun r member => by
      rw [← cut]
      exact List.mem_append_left _ member
    obtain ⟨next, advanced, more, bound, last⟩ := advance_cursor cursor ordered.1
      (fun r member => above r (among r member))
      (fun r member => peer.safe r (part.subset (among r member)))
    have ahead : ∀ r ∈ rest.drop page.length, next < r.id := by
      intro r member
      rcases last with same | ⟨newest, inside, same⟩
      · rw [same]
        exact above r (List.mem_of_mem_drop member)
      · rw [← same]
        exact ordered.2.2 newest inside r member
    simp only [advanced, pure_bind]
    by_cases full : pageSize ≤ page.length
    · have shorter : (rest.drop page.length).length < steps := by
        have lengths := congrArg List.length cut
        rw [List.length_append] at lengths
        omega
      have behind := served_behind (left.trans cut.symm) more bound ahead
      simp only [full, decide_true, if_true, processAll, bind_assoc]
      apply bind_congr
      intro _
      exact ih next _ _ shorter behind
    · simp only [full, decide_false, Bool.false_eq_true, if_false, processAll, bind_assoc, pure_bind]

theorem batches_full {pageSize steps : ℕ} {carry rest page : List SnapshotRow}
    (page_is : rest.take (min pageSize routeLimit) = page) (full : pageSize ≤ page.length) :
    batches js pageSize (steps + 1) carry rest =
      (holdTrailingGroup js (carry ++ page) true).ready ::
        batches js pageSize steps (holdTrailingGroup js (carry ++ page) true).held
          (rest.drop page.length) := by
  rw [batches]
  simp only [page_is, full, decide_true, if_true]

theorem batches_short {pageSize steps : ℕ} {carry rest page : List SnapshotRow}
    (page_is : rest.take (min pageSize routeLimit) = page) (short : ¬ pageSize ≤ page.length) :
    batches js pageSize (steps + 1) carry rest = [carry ++ page] := by
  rw [batches]
  simp only [page_is, short, decide_false, Bool.false_eq_true, if_false, hold_short]

/-- A page that falls short of its size although the route serves it whole is the table's end. -/
theorem short_page_ends {pageSize : ℕ} {rest page : List SnapshotRow}
    (page_is : rest.take (min pageSize routeLimit) = page) (short : ¬ pageSize ≤ page.length)
    (served : pageSize ≤ routeLimit ∨ rest.length ≤ routeLimit) : page = rest := by
  have size := congrArg List.length page_is
  rw [List.length_take] at size
  rw [← page_is]
  apply List.take_of_length_le
  omega

/-- Where no round is parted and the route serves the whole page, the batches of a walk do
what one batch of all the rows does. -/
theorem batches_one {pageSize : ℕ} (positive : 0 < pageSize) :
    ∀ steps carry rest, rest.length < steps →
      (pageSize ≤ routeLimit ∨ rest.length ≤ routeLimit) →
      Gathered (groupKey js) (carry ++ rest) →
      (carry ++ rest).Pairwise (fun a b => a.id < b.id) →
      processAll js hub (batches js pageSize steps carry rest) =
        processBatch js hub (carry ++ rest) := by
  intro steps
  induction steps with
  | zero =>
    intro carry rest enough
    omega
  | succ steps ih =>
    intro carry rest enough served gathered increasing
    have cut := page_and_rest (min pageSize routeLimit) rest
    generalize page_is : rest.take (min pageSize routeLimit) = page at cut
    by_cases full : pageSize ≤ page.length
    · rw [batches_full page_is full]
      have total := congrArg List.length cut
      rw [List.length_append] at total
      have split := hold_split js (carry ++ page) true
      have parted : carry ++ rest = (holdTrailingGroup js (carry ++ page) true).ready ++
          ((holdTrailingGroup js (carry ++ page) true).held ++ rest.drop page.length) := by
        rw [← List.append_assoc, split, List.append_assoc, cut]
      have apart : Apart (groupKey js) (holdTrailingGroup js (carry ++ page) true).ready
          ((holdTrailingGroup js (carry ++ page) true).held ++ rest.drop page.length) := by
        apply hold_apart
        rw [List.append_assoc, cut]
        exact gathered
      rw [parted] at gathered increasing ⊢
      have ids := (List.pairwise_append.mp increasing).2.2
      have later := ih (holdTrailingGroup js (carry ++ page) true).held (rest.drop page.length)
        (by omega) (by omega) (gathered.sublist (List.sublist_append_right _ _))
        (increasing.sublist (List.sublist_append_right _ _))
      rw [process_batch_append js hub apart ids, ← later]
      rfl
    · rw [batches_short page_is full, short_page_ends page_is full served]
      exact bind_pure_unit (m := EStateM String (Walk σ))

end Paging

section Calls
variable {σ β γ : Type} {js : Builtins} {hub : Hub σ}

def endOf : EStateM.Result String (Walk σ) β → Walk σ
  | .ok _ walk => walk
  | .error _ walk => walk

/- Whatever a step does, the calls recorded behind it have P if those before it had. -/
def CallsKeep (P : SnapshotRow × Option (List SnapshotRow) → Prop)
    (act : EStateM String (Walk σ) β) : Prop :=
  ∀ walk, (∀ c ∈ walk.calls, P c) → ∀ c ∈ (endOf (act walk)).calls, P c

variable {P : SnapshotRow × Option (List SnapshotRow) → Prop}

theorem calls_keep_pure (value : β) : CallsKeep P (pure value : EStateM String (Walk σ) β) :=
  fun _ held => held

theorem calls_keep_bind {act : EStateM String (Walk σ) β} {next : β → EStateM String (Walk σ) γ}
    (first : CallsKeep P act) (second : ∀ value, CallsKeep P (next value)) :
    CallsKeep P (act >>= next) := by
  intro walk held
  have before := first walk held
  change ∀ c ∈ (endOf (EStateM.bind act next walk)).calls, P c
  unfold EStateM.bind
  cases step : act walk with
  | ok value after =>
    rw [step] at before
    exact second value after before
  | error failure after =>
    rw [step] at before
    exact before

theorem calls_keep_modify {change : Walk σ → Walk σ}
    (same : ∀ walk, (change walk).calls = walk.calls) :
    CallsKeep P (modify change : EStateM String (Walk σ) PUnit) := by
  intro walk held
  change ∀ c ∈ (change walk).calls, P c
  rw [same]
  exact held

theorem calls_keep_get : CallsKeep P (get : EStateM String (Walk σ) (Walk σ)) :=
  fun _ held => held

theorem calls_keep_on_hub (act : EStateM String σ β) : CallsKeep P (onHub act) := by
  intro walk held
  unfold onHub
  cases act walk.hub <;> exact held

theorem calls_keep_verify_row {row : SnapshotRow} {group : Option (List SnapshotRow)}
    (fits : P (row, group)) : CallsKeep P (verifyRow hub row group) := by
  intro walk held
  have grown : ∀ c ∈ walk.calls ++ [(row, group)], P c := by
    intro c member
    rcases List.mem_append.mp member with old | new
    · exact held c old
    · rw [List.mem_singleton.mp new]
      exact fits
  unfold verifyRow
  cases hub.verifier row group walk.hub <;> exact grown

theorem calls_keep_walk_row {row : SnapshotRow} {group : Option (List SnapshotRow)}
    (fits : P (row, group)) : CallsKeep P (verifyWalkRow hub row group) := by
  unfold verifyWalkRow
  apply calls_keep_bind
  · exact calls_keep_get
  · intro before
    split
    · exact calls_keep_pure _
    · apply calls_keep_bind
      · exact calls_keep_verify_row fits
      · intro verdict
        split
        · exact calls_keep_pure _
        · apply calls_keep_bind
          · apply calls_keep_modify
            intro walk
            unfold noteRefusal
            split
            · rfl
            · split <;> rfl
          · intro _
            exact calls_keep_pure _

theorem calls_keep_settle (row : SnapshotRow) (verdict : WalkVerdict) :
    CallsKeep P (settle hub row verdict) := by
  unfold settle
  split
  · apply calls_keep_bind
    · exact calls_keep_modify (fun _ => rfl)
    · intro _
      exact calls_keep_on_hub _
  · apply calls_keep_modify
    intro walk
    unfold countRefusal
    split <;> rfl

theorem calls_keep_rows {groups : OrderedMap String (List SnapshotRow)} (rows : List SnapshotRow)
    (fits : ∀ r ∈ rows, P (r, groups.get (batchKey js r))) :
    ∀ verdicts, CallsKeep P (processRows js hub groups rows verdicts) := by
  induction rows with
  | nil =>
    intro verdicts
    exact calls_keep_pure ()
  | cons row rows ih =>
    intro verdicts
    have later := ih (fun r member => fits r (List.mem_cons_of_mem row member))
    unfold processRows
    apply calls_keep_bind
    · exact calls_keep_on_hub _
    · intro had
      split
      · exact later verdicts
      · split
        · apply calls_keep_bind
          · exact calls_keep_settle row _
          · intro _
            exact later verdicts
        · apply calls_keep_bind
          · exact calls_keep_walk_row (fits row List.mem_cons_self)
          · intro verdict
            apply calls_keep_bind
            · exact calls_keep_settle row verdict
            · intro _
              exact later _

end Calls

section Whole
variable {σ : Type} {js : Builtins} {hub : Hub σ}

/-- A batch hands a row's round as the batch has it. -/
theorem batch_calls (rows : List SnapshotRow) :
    CallsKeep (fun c => c.2 = roundOf js rows c.1) (processBatch js hub rows) := by
  apply calls_keep_rows
  intro row member
  exact index_groups_at member

theorem walk_whole (peer : PeerTable) {pageSize : ℕ} (positive : 0 < pageSize)
    (served : pageSize ≤ routeLimit ∨ peer.rows.length ≤ routeLimit)
    (gathered : Gathered (groupKey js) peer.rows) {steps : ℕ} (enough : peer.rows.length < steps) :
    walkTable js hub peer pageSize steps =
      (do processBatch js hub peer.rows
          return some (← get).leftBehind) := by
  have all : peer.rows.filter (fun r => 0 < r.id) = peer.rows := by
    apply List.filter_eq_self.mpr
    intro r member
    simpa using peer.positive r member
  rw [walkTable, walk_batches peer positive steps 0 [] peer.rows enough all,
    batches_one positive steps [] peer.rows enough served gathered peer.increasing, List.nil_append]

/- Two walks of a table with enough steps, whatever the hub: they end, hand the verifier the
rounds as the table has them, and leave the same behind. -/
def SameWalk (js : Builtins) (peer : PeerTable) (p q : ℕ) : Prop :=
  ∀ (σ : Type) (hub : Hub σ) (s : σ) (refusals : List String) (n m : ℕ),
    peer.rows.length < n → peer.rows.length < m →
    walkTable js hub peer p n (Walk.start s refusals) =
        walkTable js hub peer q m (Walk.start s refusals) ∧
      (∀ walk, walkTable js hub peer p n (Walk.start s refusals) ≠ .ok none walk) ∧
      ∀ c ∈ (endOf (walkTable js hub peer p n (Walk.start s refusals))).calls,
        c.2 = roundOf js peer.rows c.1

theorem same_walk_of_gathered {peer : PeerTable} {p q : ℕ} (first : 0 < p) (second : 0 < q)
    (pages : (p ≤ routeLimit ∧ q ≤ routeLimit) ∨ peer.rows.length ≤ routeLimit)
    (gathered : Gathered (groupKey js) peer.rows) : SameWalk js peer p q := by
  intro σ hub s refusals n m enough enough'
  rw [walk_whole peer first (by omega) gathered enough,
    walk_whole peer second (by omega) gathered enough']
  refine ⟨rfl, ?_, ?_⟩
  · intro walk ended
    change EStateM.bind _ _ _ = _ at ended
    unfold EStateM.bind at ended
    split at ended
    · simp [get, getThe, MonadStateOf.get, EStateM.get, bind, EStateM.bind, pure, EStateM.pure] at ended
    · simp at ended
  · have keeps : CallsKeep (fun c => c.2 = roundOf js peer.rows c.1)
        (do processBatch js hub peer.rows
            return some (← get).leftBehind) := by
      apply calls_keep_bind
      · exact batch_calls peer.rows
      · intro _
        apply calls_keep_bind
        · exact calls_keep_get
        · intro walk
          exact calls_keep_pure _
    exact keeps _ (by simp [Walk.start])

end Whole

section Parted
variable {js : Builtins}

/- A hub that holds no row, accepts every row and stores it. -/
def openHub : Hub Unit where
  hasRow := fun _ => pure false
  verifier := fun _ _ => pure .passed
  storeRow := fun _ => pure ()
  reads := false
  failedServes := fun _ => 0
  keyFor := fun _ => ""
  maxEntries := 1

theorem open_walk_row (row : SnapshotRow) (group : Option (List SnapshotRow)) {walk : Walk Unit}
    (fresh : walk.refusals = []) :
    verifyWalkRow openHub row group walk =
      .ok (.judged .passed) { walk with calls := walk.calls ++ [(row, group)] } := by
  have unknown : openHub.keyFor row ∉ walk.refusals := by simp [fresh]
  simp only [verifyWalkRow, bind, EStateM.bind, get, getThe, MonadStateOf.get, EStateM.get,
    if_neg unknown]
  rfl

variable (js) in
theorem open_batch_rows {groups : OrderedMap String (List SnapshotRow)} (rows : List SnapshotRow) :
    ∀ (verdicts : OrderedMap String WalkVerdict) (walk : Walk Unit), walk.refusals = [] →
      (∀ key verdict, verdicts.get key = some verdict → verdict = .judged .passed) →
      ∃ after, processRows js openHub groups rows verdicts walk = .ok () after ∧
        after.refusals = [] ∧ after.stored = walk.stored ++ rows.map withoutWireId ∧
        (∀ c ∈ walk.calls, c ∈ after.calls) ∧
        ∀ r ∈ rows, verdicts.get (batchKey js r) = none →
          ∃ asked, batchKey js asked = batchKey js r ∧
            (asked, groups.get (batchKey js r)) ∈ after.calls := by
  induction rows with
  | nil =>
    intro verdicts walk fresh _
    exact ⟨walk, rfl, fresh, by simp, fun c member => member, by simp⟩
  | cons row rows ih =>
    intro verdicts walk fresh passed
    cases cached : verdicts.get (batchKey js row) with
    | some verdict =>
      have accepted := passed _ _ cached
      subst accepted
      obtain ⟨after, ran, clean, stored, kept, called⟩ := ih verdicts
        { walk with stored := walk.stored ++ [withoutWireId row] } fresh passed
      refine ⟨after, ?_, clean, ?_, kept, ?_⟩
      · rw [← ran, processRows]
        change (match verdicts.get (batchKey js row) with
          | some verdict => _
          | none => _ : EStateM String (Walk Unit) Unit) walk = _
        rw [cached]
        rfl
      · rw [stored]
        simp
      · intro r member unseen
        rcases List.mem_cons.mp member with rfl | later
        · rw [cached] at unseen
          simp at unseen
        · exact called r later unseen
    | none =>
      have passed' : ∀ key verdict,
          (verdicts.set (batchKey js row) (.judged .passed)).get key = some verdict →
          verdict = .judged .passed := by
        intro key verdict held
        by_cases same : key = batchKey js row
        · rw [same, OrderedMap.get_set_same] at held
          exact (Option.some.inj held).symm
        · rw [OrderedMap.get_set_other same] at held
          exact passed key verdict held
      obtain ⟨after, ran, clean, stored, kept, called⟩ :=
        ih (verdicts.set (batchKey js row) (.judged .passed))
          { walk with
            calls := walk.calls ++ [(row, groups.get (batchKey js row))]
            stored := walk.stored ++ [withoutWireId row] } fresh passed'
      refine ⟨after, ?_, clean, ?_, ?_, ?_⟩
      · rw [← ran, processRows]
        change (match verdicts.get (batchKey js row) with
          | some verdict => _
          | none => _ : EStateM String (Walk Unit) Unit) walk = _
        rw [cached]
        change EStateM.bind _ _ walk = _
        rw [EStateM.bind, open_walk_row row _ fresh]
        rfl
      · rw [stored]
        simp
      · intro c member
        exact kept c (List.mem_append_left _ member)
      · intro r member unseen
        by_cases same : batchKey js r = batchKey js row
        · rw [same]
          exact ⟨row, rfl, kept _ (List.mem_append_right _ List.mem_cons_self)⟩
        · rcases List.mem_cons.mp member with rfl | later
          · exact absurd rfl same
          · have still : (verdicts.set (batchKey js row) (.judged .passed)).get (batchKey js r) =
                none := by
              rw [OrderedMap.get_set_other same]
              exact unseen
            exact called r later still

variable (js) in
/-- On the open hub every batch asks for each of its rows' keys with the batch's own group. -/
theorem open_batches (parts : List (List SnapshotRow)) :
    ∀ walk : Walk Unit, walk.refusals = [] →
      ∃ after, processAll js openHub parts walk = .ok () after ∧
        after.stored = walk.stored ++ parts.flatten.map withoutWireId ∧
        (∀ c ∈ walk.calls, c ∈ after.calls) ∧
        ∀ part ∈ parts, ∀ r ∈ part, ∃ asked, batchKey js asked = batchKey js r ∧
          (asked, roundOf js part r) ∈ after.calls := by
  induction parts with
  | nil =>
    intro walk _
    exact ⟨walk, rfl, by simp, fun c member => member, by simp⟩
  | cons part parts ih =>
    intro walk fresh
    obtain ⟨middle, first, clean, stored, kept, called⟩ :=
      open_batch_rows js part OrderedMap.empty walk fresh
        (by simp)
    obtain ⟨after, rest, stored', kept', called'⟩ := ih middle clean
    refine ⟨after, ?_, ?_, ?_, ?_⟩
    · change EStateM.bind _ _ walk = _
      rw [EStateM.bind, processBatch, first]
      exact rest
    · rw [stored', stored]
      simp
    · intro c member
      exact kept' c (kept c member)
    · intro other among r member
      rcases List.mem_cons.mp among with rfl | later
      · obtain ⟨asked, same, call⟩ := called r member (by simp)
        rw [index_groups_at member] at call
        exact ⟨asked, same, kept' _ call⟩
      · exact called' other later r member

variable (js) in
theorem batches_flatten {pageSize : ℕ} (positive : 0 < pageSize) :
    ∀ steps carry rest, rest.length < steps →
      (pageSize ≤ routeLimit ∨ rest.length ≤ routeLimit) →
      (batches js pageSize steps carry rest).flatten = carry ++ rest := by
  intro steps
  induction steps with
  | zero =>
    intro carry rest enough
    omega
  | succ steps ih =>
    intro carry rest enough served
    have cut := page_and_rest (min pageSize routeLimit) rest
    generalize page_is : rest.take (min pageSize routeLimit) = page at cut
    by_cases full : pageSize ≤ page.length
    · have total := congrArg List.length cut
      rw [List.length_append] at total
      rw [batches_full page_is full, List.flatten_cons,
        ih _ (rest.drop page.length) (by omega) (by omega), ← List.append_assoc, hold_split,
        List.append_assoc, cut]
    · rw [batches_short page_is full, short_page_ends page_is full served]
      simp

theorem keyed_row_gathered {carry : List SnapshotRow} {key : String}
    (keyed : ∀ r ∈ carry, groupKey js r = some key) (row : SnapshotRow) :
    Gathered (groupKey js) (carry ++ [row]) := by
  intro a m b three k first last
  obtain ⟨front, back, split, left, right⟩ := List.sublist_append_iff.mp three
  have both : ∃ z, front = [a, m] ++ z := by
    have short := right.length_le
    have lengths := congrArg List.length split
    simp only [List.length_append, List.length_cons, List.length_nil] at short lengths
    match front, split with
    | [], _ => simp at lengths; omega
    | [_], _ => simp at lengths; omega
    | _ :: _ :: rest, split =>
      simp only [List.cons_append, List.cons.injEq] at split
      exact ⟨rest, by rw [split.1, split.2.1]; rfl⟩
  obtain ⟨z, inside⟩ := both
  have a_in : a ∈ carry := left.subset (by simp [inside])
  have m_in : m ∈ carry := left.subset (by simp [inside])
  rw [keyed a a_in] at first
  rw [keyed m m_in]
  exact first

/-- Pages of one row part every run of rows with one key from what follows it. -/
theorem single_pages_gathered : ∀ steps carry rest,
    (∃ key, ∀ r ∈ carry, groupKey js r = some key) →
    ∀ part ∈ batches js 1 steps carry rest, Gathered (groupKey js) part := by
  intro steps
  induction steps with
  | zero =>
    intro carry rest _ part member
    simp [batches] at member
  | succ steps ih =>
    intro carry rest ⟨key, keyed⟩ part member
    cases rest with
    | nil =>
      have empty : ([] : List SnapshotRow).take (min 1 routeLimit) = [] := List.take_nil
      rw [batches_short empty (by simp)] at member
      rw [List.mem_singleton.mp member, List.append_nil]
      exact (keyed_row_gathered keyed ⟨0, []⟩).sublist (List.sublist_append_left _ _)
    | cons row rest =>
      have first : (row :: rest).take (min 1 routeLimit) = [row] := by simp [routeLimit]
      rw [batches_full first (by simp)] at member
      have whole := keyed_row_gathered keyed row
      have split := hold_split js (carry ++ [row]) true
      rcases List.mem_cons.mp member with rfl | later
      · apply whole.sublist
        conv => rhs; rw [← split]
        exact List.sublist_append_left _ _
      · apply ih _ _ _ part later
        cases last : groupKey js row with
        | none =>
          refine ⟨key, fun r held => ?_⟩
          obtain ⟨other, final, _⟩ := held_keyed held
          simp [last] at final
        | some other =>
          refine ⟨other, fun r held => ?_⟩
          obtain ⟨trailing, final, trails⟩ := held_keyed held
          simp only [List.getLast?_append, List.getLast?_singleton, Option.some_or,
            Option.bind_some, last] at final
          rw [trails, final]

variable (js) in
theorem open_walk (peer : PeerTable) {pageSize steps : ℕ} (positive : 0 < pageSize)
    (enough : peer.rows.length < steps) :
    (endOf (walkTable js openHub peer pageSize steps (Walk.start () []))).stored =
        (batches js pageSize steps [] peer.rows).flatten.map withoutWireId ∧
      ∀ part ∈ batches js pageSize steps [] peer.rows, ∀ r ∈ part,
        ∃ asked, batchKey js asked = batchKey js r ∧ (asked, roundOf js part r) ∈
          (endOf (walkTable js openHub peer pageSize steps (Walk.start () []))).calls := by
  have all : peer.rows.filter (fun r => 0 < r.id) = peer.rows := by
    apply List.filter_eq_self.mpr
    intro r member
    simpa using peer.positive r member
  obtain ⟨after, ran, stored, _, called⟩ :=
    open_batches js (batches js pageSize steps [] peer.rows) (Walk.start () []) rfl
  have ended : endOf (walkTable js openHub peer pageSize steps (Walk.start () [])) = after := by
    rw [walkTable, walk_batches peer positive steps 0 [] peer.rows enough all]
    change endOf (EStateM.bind _ _ _) = after
    rw [EStateM.bind, ran]
    rfl
  rw [ended]
  exact ⟨stored, called⟩

theorem asked_key {asked row : SnapshotRow} {key : String} (keyed : groupKey js row = some key)
    (same : batchKey js asked = batchKey js row) : groupKey js asked = some key := by
  rw [batch_key_grouped keyed] at same
  cases own : groupKey js asked with
  | some other => rw [← same, batch_key_grouped own]
  | none =>
    have head := group_key_head keyed
    rw [← same, batch_key_alone_head own] at head
    simp at head

theorem gathered_of_same_walk {peer : PeerTable} (same : SameWalk js peer 1 1) :
    Gathered (groupKey js) peer.rows := by
  have enough : peer.rows.length < peer.rows.length + 1 := Nat.lt_succ_self _
  have flat := batches_flatten js Nat.one_pos _ [] peer.rows enough
    (Or.inl (by simp [routeLimit]))
  rw [List.nil_append] at flat
  obtain ⟨_, _, judged⟩ := same Unit openHub () [] _ _ enough enough
  obtain ⟨_, called⟩ := open_walk js peer Nat.one_pos enough
  rw [← flat]
  apply gathered_of_parts
  · exact single_pages_gathered _ [] peer.rows ⟨"", by simp⟩
  · intro part among r member key keyed
    obtain ⟨asked, asks, call⟩ := called part among r member
    have whole := judged _ call
    simp only [roundOf, keyed, asked_key keyed asks, Option.map_some] at whole
    rw [flat]
    exact Option.some.inj whole

/-- A page size beyond the route's limit takes a cut page for the table's end. -/
theorem within_limit_of_same_walk {peer : PeerTable} (same : SameWalk js peer (routeLimit + 1) 1) :
    peer.rows.length ≤ routeLimit := by
  have enough : peer.rows.length < peer.rows.length + 1 := Nat.lt_succ_self _
  obtain ⟨alike, _, _⟩ := same Unit openHub () [] _ _ enough enough
  have few := (open_walk js peer (Nat.succ_pos routeLimit) enough).1
  have many := (open_walk js peer Nat.one_pos enough).1
  rw [batches_flatten js Nat.one_pos _ [] peer.rows enough (Or.inl (by simp [routeLimit])),
    List.nil_append] at many
  rw [alike, many] at few
  by_contra above
  have cut : peer.rows.take (min (routeLimit + 1) routeLimit) = peer.rows.take routeLimit := by
    rw [Nat.min_eq_right (Nat.le_succ routeLimit)]
  have size : (peer.rows.take routeLimit).length = routeLimit := by
    rw [List.length_take]
    omega
  rw [batches_short cut (by omega)] at few
  have lengths := congrArg List.length few
  simp only [List.length_map, List.nil_append, List.flatten_cons, List.flatten_nil,
    List.append_nil, size] at lengths
  omega

end Parted

section PageSizes

def producerRow (id : ℕ) (pair : String) : SnapshotRow :=
  ⟨id, [("round_number", .number (NumberText.Number.ofNat 7)), ("coin_pair", .text pair),
    ("status", .text "finalized"), ("source_chain", .null), ("reference_chain", .text "BTC"),
    ("consensus_proof", .text "[]")]⟩

def pushedRow (id : ℕ) (pair : String) : SnapshotRow :=
  ⟨id, [("round_number", .number (NumberText.Number.ofNat 7)), ("coin_pair", .text pair),
    ("status", .text "finalized"), ("source_chain", .text "LTC"), ("reference_chain", .text "LTC"),
    ("consensus_proof", .text "[]")]⟩

def wholeRound : PeerTable where
  name := "price_snapshots"
  rows := [producerRow 1 "BTC/USD", producerRow 2 "LTC/USD", pushedRow 3 "LTC/USD"]
  increasing := by simp [producerRow, pushedRow]
  positive := by simp [producerRow, pushedRow]
  safe := by simp [producerRow, pushedRow, maxSafeInteger]

def partedRound : PeerTable where
  name := "price_snapshots"
  rows := [producerRow 1 "BTC/USD", pushedRow 2 "LTC/USD", producerRow 3 "LTC/USD"]
  increasing := by simp [producerRow, pushedRow]
  positive := by simp [producerRow, pushedRow]
  safe := by simp [producerRow, pushedRow, maxSafeInteger]

end PageSizes

end XChainHub.HubDb.PeerCatchup
