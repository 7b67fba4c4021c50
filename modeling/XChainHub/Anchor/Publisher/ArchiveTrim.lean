import Mathlib.Data.List.Sort
import XChainHub.Anchor.Publisher.ArchiveWire
import XChainHub.Library.BinaryRounding
import XChainHub.Library.DelimitedText
import XChainHub.Library.ScriptOrder

/-!
Trimming an archive to its transport budgets: buildSizedArchive and the two trims of
anchor/publisher/archive/selection.js. A build reads the indexer again, so the k-th one is
a function of k and of the rows; ratios are doubles.
-/
namespace XChainHub.Anchor.Publisher
open BinaryRounding DecimalText DelimitedText ScriptValue Base64Text

def archiveMaxJsonBytes : ℕ := 8 * 1024 * 1024

def archiveMaxWireB64Bytes : ℕ := 768 * 1024

def archiveMaxChainTxs : ℕ := 24

def archiveChainBytesBudget : ℤ := 90000

/- A quotient by zero is infinite and leaves the other bound. -/
def maxArchiveChunks (chunkMaxBytes : ℤ) : ℕ :=
  if chunkMaxBytes + 1000 = 0 then archiveMaxChainTxs
  else (max 1 (min (archiveMaxChainTxs : ℤ) (archiveChainBytesBudget / (chunkMaxBytes + 1000)))).toNat

structure PriceRow (ρ : Type) where
  roundNumber : ℕ
  coinPair : String
  row : ρ

structure ArchiveRows (ρ : Type) where
  matchRows : List ρ
  calls : List ρ
  rewards : List ρ
  bridges : List ρ
  policies : List ρ
  lists : List ρ
  checkpoints : List ρ
  prices : List (PriceRow ρ)
  tombstones : List ρ
  cappedOrTrimmed : Bool

structure Archive where
  json : String
  count : ℕ

section Trim
variable {ρ : Type}

/- Array.prototype.splice: a start below zero counts from the end. -/
def splice (xs : List ρ) (start : ℤ) (deleteCount : ℕ) : List ρ :=
  let first := if start < 0 then (xs.length + start).toNat else start.toNat
  xs.take first ++ xs.drop (first + deleteCount)

def priceBefore (a b : PriceRow ρ) : Prop :=
  a.roundNumber < b.roundNumber ∨
    a.roundNumber = b.roundNumber ∧ textLess b.coinPair a.coinPair = false

instance (a b : PriceRow ρ) : Decidable (priceBefore a b) := by
  unfold priceBefore
  exact inferInstance

def sortedPriceSnapshots (rows : List (PriceRow ρ)) : List (PriceRow ρ) :=
  rows.insertionSort priceBefore

def roundText (prices : List (PriceRow ρ)) (index : ℕ) : Option String :=
  prices[index]?.map (fun p => toString p.roundNumber)

/- The while loop of trimTrailingPriceRounds, back to the first row of the round. -/
def roundStart (prices : List (PriceRow ρ)) (trailing : Option String) : ℕ → ℕ
  | 0 => 0
  | cut + 1 =>
    if roundText prices cut = trailing then roundStart prices trailing cut else cut + 1

def trimTrailingPriceRounds (prices : List (PriceRow ρ)) (removeCount : ℕ) : List (PriceRow ρ) :=
  let cut := prices.length - removeCount
  if cut = 0 then [] else prices.take (roundStart prices (roundText prices cut) cut)

def removal (length : ℕ) (ratio : ℚ) : ℕ :=
  max 1 ⌈toDouble (length * toDouble (1 - toDouble (1 / ratio)))⌉.toNat

def spliceTail (xs : List ρ) (ratio : ℚ) : List ρ :=
  splice xs (xs.length - removal xs.length ratio) (removal xs.length ratio)

/- The ratio is at least one: a quotient that is not a number counts as one. -/
def trimTrailingArchiveRows (rows : ArchiveRows ρ) (given : ℚ) : Option (ArchiveRows ρ) :=
  let ratio := max 1 given
  if rows.prices ≠ [] then
    some { rows with
      prices := trimTrailingPriceRounds rows.prices (removal rows.prices.length ratio) }
  else if rows.policies ≠ [] then some { rows with policies := spliceTail rows.policies ratio }
  else if rows.lists ≠ [] then some { rows with lists := spliceTail rows.lists ratio }
  else if rows.checkpoints ≠ [] then
    some { rows with checkpoints := spliceTail rows.checkpoints ratio }
  else if rows.bridges ≠ [] then some { rows with bridges := spliceTail rows.bridges ratio }
  else if rows.tombstones ≠ [] then
    some { rows with tombstones := spliceTail rows.tombstones ratio }
  else none

end Trim

section Build
variable {ρ ε : Type}

/- What a build throws, what a splitter throws, or the JSON that stays too long. -/
inductive ArchiveError (ε : Type) where
  | thrown (error : ε)
  | jsonExceeds

def ArchiveError.message (shown : ε → String) : ArchiveError ε → String
  | .thrown error => shown error
  | .jsonExceeds =>
    "archive JSON exceeds " ++ toString archiveMaxJsonBytes ++ " bytes after eligible rows were trimmed"

def JsonWithin (archive : Archive) : Prop := byteLength archive.json ≤ archiveMaxJsonBytes

def WireWithin (chunkMaxBytes : ℤ) (wire : ArchiveWire) : Prop :=
  wire.b64.length ≤ archiveMaxWireB64Bytes ∧ wire.chunks.length ≤ maxArchiveChunks chunkMaxBytes

instance (archive : Archive) : Decidable (JsonWithin archive) := by
  unfold JsonWithin
  exact inferInstance

instance (chunkMaxBytes : ℤ) (wire : ArchiveWire) : Decidable (WireWithin chunkMaxBytes wire) := by
  unfold WireWithin
  exact inferInstance

def sizeRatio (chunkMaxBytes : ℤ) (archive : Archive) (wire : ArchiveWire) : ℚ :=
  max (toDouble (byteLength archive.json / archiveMaxJsonBytes))
    (max (toDouble (wire.b64.length / archiveMaxWireB64Bytes))
      (toDouble (wire.chunks.length / maxArchiveChunks chunkMaxBytes)))

variable (chunkMaxBytes : ℤ) (gzip : String → List ℕ) (splitter : Splitter ε)
  (buildArchive : ℕ → ArchiveRows ρ → Except ε Archive)

/- One turn per unit of fuel; the number counts the builds made so far. -/
def buildSizedArchive : ℕ → ℕ → ArchiveRows ρ →
    Option (Except (ArchiveError ε) Archive × ArchiveRows ρ)
  | 0, _, _ => none
  | fuel + 1, builds, rows =>
    match buildArchive builds rows with
    | .error error => some (.error (.thrown error), rows)
    | .ok archive =>
      match archiveWire gzip splitter archive.json with
      | .error error => some (.error (.thrown error), rows)
      | .ok wire =>
        if JsonWithin archive ∧ WireWithin chunkMaxBytes wire then some (.ok archive, rows)
        else
          match trimTrailingArchiveRows rows (sizeRatio chunkMaxBytes archive wire) with
          | none =>
            if JsonWithin archive then some (.ok archive, rows)
            else some (.error .jsonExceeds, rows)
          | some trimmed =>
            buildSizedArchive fuel (builds + 1) { trimmed with cappedOrTrimmed := true }

end Build

section Rounds
variable {ρ : Type}

theorem round_text_inj {a b : PriceRow ρ}
    (same : toString a.roundNumber = toString b.roundNumber) : a.roundNumber = b.roundNumber := by
  have shown : ∀ n : ℕ, digitsValue (toString n).toList = n := by
    intro n
    have chars : (toString n).toList = Nat.toDigits 10 n := by simp [Nat.repr]
    rw [chars, digits_value_to_digits]
  rw [← shown a.roundNumber, same, shown]

theorem round_start_le (prices : List (PriceRow ρ)) (trailing : Option String) (cut : ℕ) :
    roundStart prices trailing cut ≤ cut := by
  induction cut with
  | zero => exact le_refl 0
  | succ cut ih =>
    rw [roundStart]
    split
    · omega
    · exact le_refl _

/-- Every row the loop steps back over is of the trailing round. -/
theorem round_start_skipped {prices : List (PriceRow ρ)} {trailing : Option String} {cut i : ℕ}
    (after : roundStart prices trailing cut ≤ i) (before : i < cut) :
    roundText prices i = trailing := by
  induction cut with
  | zero => omega
  | succ cut ih =>
    rw [roundStart] at after
    split at after
    · rename_i same
      rcases Nat.lt_or_ge i cut with earlier | last
      · exact ih after earlier
      · rw [show i = cut by omega]
        exact same
    · omega

/-- The row the loop stops behind is of another round. -/
theorem round_start_stops {prices : List (PriceRow ρ)} {trailing : Option String} {cut i : ℕ}
    (stop : roundStart prices trailing cut = i + 1) : roundText prices i ≠ trailing := by
  induction cut with
  | zero => cases stop
  | succ cut ih =>
    rw [roundStart] at stop
    split at stop
    · exact ih stop
    · rename_i other
      rw [show i = cut by omega]
      exact other

def WholeRounds (original left : List (PriceRow ρ)) : Prop :=
  ∀ r, left.filter (fun p => p.roundNumber = r) = [] ∨
    left.filter (fun p => p.roundNumber = r) = original.filter (fun p => p.roundNumber = r)

theorem whole_of_split {left rest : List (PriceRow ρ)}
    (apart : ∀ a ∈ left, ∀ b ∈ rest, a.roundNumber ≠ b.roundNumber) :
    WholeRounds (left ++ rest) left := by
  intro r
  by_cases present : ∃ a ∈ left, a.roundNumber = r
  · obtain ⟨a, kept, own⟩ := present
    have gone : rest.filter (fun p => p.roundNumber = r) = [] := by
      rw [List.filter_eq_nil_iff]
      intro b member same
      exact apart a kept b member (own.trans (of_decide_eq_true same).symm)
    right
    rw [List.filter_append, gone, List.append_nil]
  · left
    rw [List.filter_eq_nil_iff]
    intro a kept same
    exact present ⟨a, kept, of_decide_eq_true same⟩

/-- The rows before the start are of earlier rounds than the row at the cut, the others not. -/
theorem round_start_apart {prices : List (PriceRow ρ)} {cut : ℕ} (inside_cut : cut < prices.length)
    (sorted : prices.Pairwise (fun a b => a.roundNumber ≤ b.roundNumber)) :
    (∀ a ∈ prices.take (roundStart prices (roundText prices cut) cut),
      a.roundNumber < prices[cut].roundNumber) ∧
    ∀ b ∈ prices.drop (roundStart prices (roundText prices cut) cut),
      prices[cut].roundNumber ≤ b.roundNumber := by
  have start_le := round_start_le prices (roundText prices cut) cut
  have skipped := @round_start_skipped ρ prices (roundText prices cut) cut
  have stops := @round_start_stops ρ prices (roundText prices cut) cut
  generalize roundStart prices (roundText prices cut) cut = start at start_le skipped stops ⊢
  have order := List.pairwise_iff_getElem.mp sorted
  have shown : ∀ i (inside : i < prices.length),
      roundText prices i = some (toString prices[i].roundNumber) := by
    intro i inside
    rw [roundText, List.getElem?_eq_getElem inside, Option.map_some]
  constructor
  · intro a kept
    obtain ⟨i, bound, rfl⟩ := List.mem_take_iff_getElem.mp kept
    have inside_stop : start - 1 < prices.length := by omega
    have other : prices[start - 1].roundNumber ≠ prices[cut].roundNumber := by
      intro same
      apply @stops (start - 1) (by omega)
      rw [shown _ inside_stop, shown _ inside_cut, same]
    have to_stop : prices[i].roundNumber ≤ prices[start - 1].roundNumber := by
      rcases Nat.lt_or_ge i (start - 1) with below | last
      · exact order i (start - 1) (by omega) inside_stop below
      · have same_place : i = start - 1 := by omega
        simp only [same_place, le_refl]
    have to_cut := order (start - 1) cut inside_stop inside_cut (by omega)
    omega
  · intro b dropped
    obtain ⟨i, bound, rfl⟩ := List.mem_drop_iff_getElem.mp dropped
    have inside : start + i < prices.length := by omega
    rcases Nat.lt_trichotomy (start + i) cut with below | same_place | above
    · have same := skipped (Nat.le_add_right start i) below
      rw [shown _ inside, shown _ inside_cut, Option.some.injEq] at same
      exact (round_text_inj same).ge
    · simp only [same_place, le_refl]
    · exact order cut (start + i) inside_cut inside above

/-- A cut before the trailing round leaves each round in whole or not at all. -/
theorem trim_rounds {prices : List (PriceRow ρ)} {removeCount : ℕ} (filled : prices ≠ [])
    (removes : 1 ≤ removeCount)
    (sorted : prices.Pairwise (fun a b => a.roundNumber ≤ b.roundNumber)) :
    trimTrailingPriceRounds prices removeCount <+: prices ∧
      WholeRounds prices (trimTrailingPriceRounds prices removeCount) ∧
      (trimTrailingPriceRounds prices removeCount).length < prices.length := by
  have size := List.length_pos_iff.mpr filled
  simp only [trimTrailingPriceRounds]
  split
  · exact ⟨List.nil_prefix, fun r => .inl rfl, size⟩
  · rename_i some_left
    have inside : prices.length - removeCount < prices.length := by omega
    have start_le := round_start_le prices (roundText prices (prices.length - removeCount))
      (prices.length - removeCount)
    obtain ⟨earlier, later⟩ := round_start_apart inside sorted
    generalize roundStart prices _ _ = start at start_le earlier later ⊢
    have apart : WholeRounds (prices.take start ++ prices.drop start) (prices.take start) := by
      apply whole_of_split
      intro a kept b dropped same
      have below := earlier a kept
      have above := later b dropped
      omega
    rw [List.take_append_drop] at apart
    exact ⟨List.take_prefix _ _, apart, by rw [List.length_take]; omega⟩

example : (trimTrailingPriceRounds [⟨1, "BTC", ()⟩, ⟨1, "LTC", ()⟩, ⟨2, "BTC", ()⟩, ⟨2, "LTC", ()⟩,
    ⟨3, "BTC", ()⟩] 2).map PriceRow.coinPair = ["BTC", "LTC"] := by decide

theorem whole_rounds_trans {original middle left : List (PriceRow ρ)}
    (first : WholeRounds original middle) (second : WholeRounds middle left) :
    WholeRounds original left := by
  intro r
  rcases second r with gone | whole
  · exact .inl gone
  · rw [whole]
    exact first r

end Rounds

section Trimmed
variable {ρ : Type}

theorem removal_positive (length : ℕ) (ratio : ℚ) : 1 ≤ removal length ratio := le_max_left _ _

/-- Splicing the tail off leaves a shorter prefix, whatever the ratio. -/
theorem splice_tail {xs : List ρ} (filled : xs ≠ []) (ratio : ℚ) :
    spliceTail xs ratio <+: xs ∧ (spliceTail xs ratio).length < xs.length := by
  have size := List.length_pos_iff.mpr filled
  have removes := removal_positive xs.length ratio
  unfold spliceTail
  generalize removal xs.length ratio = count at removes ⊢
  simp only [splice]
  generalize first_at : (if (xs.length : ℤ) - count < 0 then (xs.length + (xs.length - count : ℤ)).toNat
    else (xs.length - count : ℤ).toNat) = first
  have place : first < xs.length ∧ xs.length ≤ first + count := by
    split at first_at <;> omega
  rw [List.drop_of_length_le place.2, List.append_nil]
  exact ⟨List.take_prefix _ _, by rw [List.length_take]; omega⟩

/- What trimming may have done to a row set. -/
structure Trimmed (original left : ArchiveRows ρ) : Prop where
  matchRows : left.matchRows = original.matchRows
  calls : left.calls = original.calls
  rewards : left.rewards = original.rewards
  bridges : left.bridges <+: original.bridges
  policies : left.policies <+: original.policies
  lists : left.lists <+: original.lists
  checkpoints : left.checkpoints <+: original.checkpoints
  prices : left.prices <+: original.prices
  tombstones : left.tombstones <+: original.tombstones
  rounds : WholeRounds original.prices left.prices

theorem Trimmed.refl (rows : ArchiveRows ρ) : Trimmed rows rows := by
  constructor
  all_goals first
    | rfl
    | exact List.prefix_refl _
    | exact fun r => .inr rfl

theorem Trimmed.trans {original middle left : ArchiveRows ρ} (first : Trimmed original middle)
    (second : Trimmed middle left) : Trimmed original left where
  matchRows := second.matchRows.trans first.matchRows
  calls := second.calls.trans first.calls
  rewards := second.rewards.trans first.rewards
  bridges := second.bridges.trans first.bridges
  policies := second.policies.trans first.policies
  lists := second.lists.trans first.lists
  checkpoints := second.checkpoints.trans first.checkpoints
  prices := second.prices.trans first.prices
  tombstones := second.tombstones.trans first.tombstones
  rounds := whole_rounds_trans first.rounds second.rounds

def trimmableRows (rows : ArchiveRows ρ) : ℕ :=
  rows.prices.length + rows.policies.length + rows.lists.length + rows.checkpoints.length +
    rows.bridges.length + rows.tombstones.length

def SortedPrices (rows : ArchiveRows ρ) : Prop :=
  rows.prices.Pairwise (fun a b => a.roundNumber ≤ b.roundNumber)

theorem trimmed_sorted {original left : ArchiveRows ρ} (trimmed : Trimmed original left)
    (sorted : SortedPrices original) : SortedPrices left :=
  List.Pairwise.sublist trimmed.prices.sublist sorted

/-- A trim takes something off, and there is none only where nothing is left to take. -/
theorem trim_step {rows : ArchiveRows ρ} (sorted : SortedPrices rows) (given : ℚ) :
    match trimTrailingArchiveRows rows given with
    | some left => Trimmed rows left ∧ trimmableRows left < trimmableRows rows
    | none => trimmableRows rows = 0 := by
  have kept := Trimmed.refl rows
  unfold trimTrailingArchiveRows
  split_ifs with prices policies lists checkpoints bridges tombstones
  · obtain ⟨front, whole, shorter⟩ := trim_rounds prices (removal_positive _ (max 1 given)) sorted
    exact ⟨{ kept with prices := front, rounds := whole }, by simp only [trimmableRows]; omega⟩
  · obtain ⟨front, shorter⟩ := splice_tail policies (max 1 given)
    exact ⟨{ kept with policies := front }, by simp only [trimmableRows]; omega⟩
  · obtain ⟨front, shorter⟩ := splice_tail lists (max 1 given)
    exact ⟨{ kept with lists := front }, by simp only [trimmableRows]; omega⟩
  · obtain ⟨front, shorter⟩ := splice_tail checkpoints (max 1 given)
    exact ⟨{ kept with checkpoints := front }, by simp only [trimmableRows]; omega⟩
  · obtain ⟨front, shorter⟩ := splice_tail bridges (max 1 given)
    exact ⟨{ kept with bridges := front }, by simp only [trimmableRows]; omega⟩
  · obtain ⟨front, shorter⟩ := splice_tail tombstones (max 1 given)
    exact ⟨{ kept with tombstones := front }, by simp only [trimmableRows]; omega⟩
  · rw [not_not] at prices policies lists checkpoints bridges tombstones
    simp only [trimmableRows, prices, policies, lists, checkpoints, bridges, tombstones,
      List.length_nil]

end Trimmed

section Run
variable {ρ ε : Type} {chunkMaxBytes : ℤ} {gzip : String → List ℕ} {splitter : Splitter ε}
  {buildArchive : ℕ → ArchiveRows ρ → Except ε Archive}

/- What a return of buildSizedArchive says of its rows and its archive. -/
structure Sized (chunkMaxBytes : ℤ) (gzip : String → List ℕ) (splitter : Splitter ε)
    (rows left : ArchiveRows ρ) (result : Except (ArchiveError ε) Archive) : Prop where
  trimmed : Trimmed rows left
  within : ∀ archive, result = .ok archive → trimmableRows left = 0 ∨ JsonWithin archive ∧
    ∃ wire, archiveWire gzip splitter archive.json = .ok wire ∧ WireWithin chunkMaxBytes wire

theorem sized_after {rows middle left : ArchiveRows ρ} {result : Except (ArchiveError ε) Archive}
    (trimmed : Trimmed rows middle)
    (sized : Sized chunkMaxBytes gzip splitter middle left result) :
    Sized chunkMaxBytes gzip splitter rows left result :=
  ⟨trimmed.trans sized.trimmed, sized.within⟩

theorem sized_thrown {rows : ArchiveRows ρ} (error : ArchiveError ε) :
    Sized chunkMaxBytes gzip splitter rows rows (.error error) :=
  ⟨Trimmed.refl rows, fun _ ok => nomatch ok⟩

/-- One turn returns, or goes on with fewer rows to trim. -/
theorem sized_turn (builds : ℕ) {rows : ArchiveRows ρ} (sorted : SortedPrices rows) :
    (∃ result, Sized chunkMaxBytes gzip splitter rows rows result ∧
      ∀ fuel, buildSizedArchive chunkMaxBytes gzip splitter buildArchive (fuel + 1) builds rows =
        some (result, rows)) ∨
    ∃ middle, Trimmed rows middle ∧ trimmableRows middle < trimmableRows rows ∧
      ∀ fuel, buildSizedArchive chunkMaxBytes gzip splitter buildArchive (fuel + 1) builds rows =
        buildSizedArchive chunkMaxBytes gzip splitter buildArchive fuel (builds + 1) middle := by
  cases built : buildArchive builds rows with
  | error error =>
    exact .inl ⟨_, sized_thrown (.thrown error), fun fuel => by simp only [buildSizedArchive, built]⟩
  | ok archive =>
    cases wired : archiveWire gzip splitter archive.json with
    | error error =>
      exact .inl ⟨_, sized_thrown (.thrown error),
        fun fuel => by simp only [buildSizedArchive, built, wired]⟩
    | ok wire =>
      by_cases fits : JsonWithin archive ∧ WireWithin chunkMaxBytes wire
      · refine .inl ⟨.ok archive, ⟨Trimmed.refl rows, ?_⟩, ?_⟩
        · intro returned same
          cases same
          exact .inr ⟨fits.1, wire, wired, fits.2⟩
        · intro fuel
          simp only [buildSizedArchive, built, wired, if_pos fits]
      · have step := trim_step sorted (sizeRatio chunkMaxBytes archive wire)
        cases trim : trimTrailingArchiveRows rows (sizeRatio chunkMaxBytes archive wire) with
        | none =>
          rw [trim] at step
          by_cases json : JsonWithin archive
          · refine .inl ⟨.ok archive, ⟨Trimmed.refl rows, fun _ _ => .inl step⟩, ?_⟩
            intro fuel
            simp only [buildSizedArchive, built, wired, if_neg fits, trim, if_pos json]
          · refine .inl ⟨_, sized_thrown .jsonExceeds, ?_⟩
            intro fuel
            simp only [buildSizedArchive, built, wired, if_neg fits, trim, if_neg json]
        | some middle =>
          rw [trim] at step
          refine .inr ⟨{ middle with cappedOrTrimmed := true }, { step.1 with }, step.2, ?_⟩
          intro fuel
          simp only [buildSizedArchive, built, wired, if_neg fits, trim]

/-- Sizing returns within one build more than there are rows to trim. -/
theorem sized_run (bound builds : ℕ) {rows : ArchiveRows ρ} (short : trimmableRows rows ≤ bound)
    (sorted : SortedPrices rows) :
    ∃ result left, Sized chunkMaxBytes gzip splitter rows left result ∧
      ∀ fuel, trimmableRows rows < fuel →
        buildSizedArchive chunkMaxBytes gzip splitter buildArchive fuel builds rows =
          some (result, left) := by
  induction bound generalizing builds rows with
  | zero =>
    rcases sized_turn builds sorted with ⟨result, sized, returns⟩ | ⟨middle, -, fewer, -⟩
    · refine ⟨result, rows, sized, ?_⟩
      intro fuel enough
      obtain ⟨more, rfl⟩ := Nat.exists_eq_succ_of_ne_zero (Nat.ne_zero_of_lt enough)
      exact returns more
    · omega
  | succ bound ih =>
    rcases sized_turn builds sorted with ⟨result, sized, returns⟩ | ⟨middle, trimmed, fewer, goes⟩
    · refine ⟨result, rows, sized, ?_⟩
      intro fuel enough
      obtain ⟨more, rfl⟩ := Nat.exists_eq_succ_of_ne_zero (Nat.ne_zero_of_lt enough)
      exact returns more
    · obtain ⟨result, left, sized, returns⟩ :=
        ih (builds + 1) (by omega) (trimmed_sorted trimmed sorted)
      refine ⟨result, left, sized_after trimmed sized, ?_⟩
      intro fuel enough
      obtain ⟨more, rfl⟩ := Nat.exists_eq_succ_of_ne_zero (Nat.ne_zero_of_lt enough)
      rw [goes]
      exact returns more (by omega)

end Run

section Theorems
variable {ρ ε : Type} {chunkMaxBytes : ℤ} {gzip : String → List ℕ} {splitter : Splitter ε}
  {buildArchive : ℕ → ArchiveRows ρ → Except ε Archive}

/-- Trimming an archive ends: it leaves prefixes of the streams with their price rounds whole, the
    other rows as they were, and returns an archive within the budgets unless nothing was left to
    trim. -/
theorem build_sized_archive_ends {rows : ArchiveRows ρ} (sorted : SortedPrices rows) :
    ∃ result left, Sized chunkMaxBytes gzip splitter rows left result ∧
      ∀ fuel, trimmableRows rows < fuel →
        buildSizedArchive chunkMaxBytes gzip splitter buildArchive fuel 0 rows =
          some (result, left) :=
  sized_run (trimmableRows rows) 0 (le_refl _) sorted

def cargoRows : ArchiveRows Unit where
  matchRows := [()]
  calls := []
  rewards := []
  bridges := [(), ()]
  policies := []
  lists := []
  checkpoints := [()]
  prices := [⟨1, "BTC", ()⟩, ⟨1, "LTC", ()⟩, ⟨2, "BTC", ()⟩]
  tombstones := []
  cappedOrTrimmed := false

/- A text that grows with the rows, sent one character a chunk. -/
def cargoBuild (_ : ℕ) (rows : ArchiveRows Unit) : Except String Archive :=
  .ok ⟨String.ofList (List.replicate (7 * trimmableRows rows) 'x'), rows.matchRows.length⟩

def cargoSplitter : Splitter String := fun b64 => .ok (b64.map ([·]))

def cargoBytes (json : String) : List ℕ := json.toList.map Char.toNat

theorem cargo_archive_ends :
    ∃ result left, Sized 6000 cargoBytes cargoSplitter cargoRows left result ∧
      ∀ fuel, trimmableRows cargoRows < fuel →
        buildSizedArchive 6000 cargoBytes cargoSplitter cargoBuild fuel 0 cargoRows =
          some (result, left) :=
  build_sized_archive_ends (by simp [SortedPrices, cargoRows])

end Theorems

end XChainHub.Anchor.Publisher
