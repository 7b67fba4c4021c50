import XChainHub.Consensus.StakeWeightedQuorum
import XChainHub.Library.OrderedMap

/-!
The lose-one margin of validators/stake_share/lose_one.js, with totalStake() of
consensus/stake_weighted_quorum.js. A row's field values are its String() text as in
the quorum predicate; fmt is the exact decimal text of a bignumber, and the ratio's
toNumber() is left out of the exact quotient.
-/
namespace XChainHub.StakeShare
open DecimalText StakeWeightedQuorum

def truncatedSum : String :=
  "stake_weighted_quorum.totalStake: truncated snapshot cannot be summed"

def blankSource : String :=
  "stake_weighted_quorum.totalStake: blank/missing source would collapse the stake bucket"

def missingWeight : String :=
  "stake_weighted_quorum.totalStake: missing weight would silently lower S"

def nonnumericWeight : String :=
  "stake_weighted_quorum.totalStake: nonnumeric weight would silently lower S"

def negativeWeight : String := "stake_weighted_quorum.totalStake: negative weight in snapshot"

/- The dedupe pass of totalStake(): the first row of a source decides its weight. -/
def weighRows (weightBySource : TextMap) : List Row → Except String TextMap
  | [] => .ok weightBySource
  | v :: rows =>
    match v.source with
    | none => .error blankSource
    | some src =>
      if isBlank src then .error blankSource
      else if src ∈ weightBySource then weighRows weightBySource rows
      else
        match v.weight with
        | none => .error missingWeight
        | some ws =>
          if isNumeric ws then weighRows (weightBySource.insert src ws) rows
          else .error nonnumericWeight

def totalStake (validators : Snapshot) : Except String ℚ :=
  if validators.truncated then .error truncatedSum
  else (weighRows ∅ validators.rows).bind (fun weightBySource =>
    if (weights weightBySource).any (· < 0) then .error negativeWeight
    else .ok (weights weightBySource).sum)

/- Rows reach this pass only once totalStake() has accepted them, so every row has a
   source and the first row of each a numeric weight. -/
def weighRow (bySource : OrderedMap String ℚ) (v : Row) : OrderedMap String ℚ :=
  if bySource.has (v.source.getD "null") then bySource
  else bySource.set (v.source.getD "null") (bcnum (v.weight.getD "null"))

def weightsBySource (rows : List Row) : OrderedMap String ℚ := rows.foldl weighRow OrderedMap.empty

/- A later entry replaces the largest so far only when it is strictly heavier. -/
def heavier (largest : Option (String × ℚ)) (entry : String × ℚ) : Option (String × ℚ) :=
  match largest with
  | none => some entry
  | some kept => if kept.2 < entry.2 then some entry else some kept

def largestOf (bySource : OrderedMap String ℚ) : Option (String × ℚ) :=
  bySource.entries.foldl heavier none

structure Margin where
  survives : Bool
  largestSource : Option String
  largestStake : String
  remainingStake : String
  totalStake : String
  remainingRatio : ℚ
  sourceCount : ℕ

inductive Report where
  | unusable (reason : String)
  | usable (margin : Margin)

def Report.survives : Report → Bool
  | .unusable _ => false
  | .usable margin => margin.survives

/- The keys of every row of another source. -/
def signersWithout (lost : Option String) (rows : List Row) : List String :=
  (rows.filter (fun v => decide (v.source ≠ lost))).map Row.pubkey

section Report
variable (toLowerCase : String → String) (fmt : ℚ → String)

def quorumAfterLosingLargest (validators : Snapshot) : Report :=
  match totalStake validators with
  | .error reason => .unusable reason
  | .ok total =>
    if total ≤ 0 then .unusable "total active stake is not positive"
    else
      let bySource := weightsBySource validators.rows
      let largest := largestOf bySource
      let stake := (largest.map Prod.snd).getD 0
      let signers := signersWithout (largest.map Prod.fst) validators.rows
      .usable {
        survives := meetsStakeThreshold toLowerCase validators signers
        largestSource := largest.map Prod.fst
        largestStake := fmt stake
        remainingStake := fmt (total - stake)
        totalStake := fmt total
        remainingRatio := (total - stake) / total
        sourceCount := bySource.size }

end Report

/- Every row of a source carries the weight w of that source. -/
def SameWeights (rows : List Row) (w : String → ℚ) : Prop :=
  ∀ v ∈ rows, ∀ src, v.source = some src →
    ∃ t, v.weight = some t ∧ signedValue (trim t.toList) = some (w src)

theorem SameWeights.tail {v : Row} {rows : List Row} {w : String → ℚ}
    (equal : SameWeights (v :: rows) w) : SameWeights rows w :=
  fun u member => equal u (List.mem_cons_of_mem v member)

/- What an accepting pass has seen: a source on every row, and every source weighed. -/
structure Weighed (w : String → ℚ) (rows : List Row) (before after : TextMap) : Prop where
  sourced : ∀ v ∈ rows, ∃ src, v.source = some src ∧ isBlank src = false
  held : ∀ src, src ∈ after ↔ src ∈ before ∨ src ∈ sources rows
  weighted : Weighted w before → Weighted w after

theorem weigh_rows_weighed {w : String → ℚ} {rows : List Row} (equal : SameWeights rows w)
    {before after : TextMap} (accepted : weighRows before rows = .ok after) :
    Weighed w rows before after := by
  induction rows generalizing before with
  | nil =>
    rw [weighRows, Except.ok.injEq] at accepted
    subst accepted
    exact ⟨by simp, by simp [sources], fun weighted => weighted⟩
  | cons v rows ih =>
    cases source : v.source with
    | none => simp [weighRows, source] at accepted
    | some src =>
      have front : ∀ other, other ∈ sources (v :: rows) ↔ other = src ∨ other ∈ sources rows := by
        intro other
        simp only [mem_sources, List.mem_cons, exists_eq_or_imp, source, Option.some.injEq,
          eq_comm (a := other)]
      simp only [weighRows, source] at accepted
      split at accepted
      · simp at accepted
      · rename_i filled
        have first : ∀ u ∈ v :: rows, (u ∈ rows → ∃ s, u.source = some s ∧ isBlank s = false) →
            ∃ s, u.source = some s ∧ isBlank s = false := by
          intro u member rest
          rcases List.mem_cons.mp member with rfl | later
          · exact ⟨src, source, by simpa using filled⟩
          · exact rest later
        split at accepted
        · rename_i known
          have rest := ih equal.tail accepted
          refine ⟨fun u member => first u member (rest.sourced u), ?_, rest.weighted⟩
          intro other
          rw [rest.held, front]
          constructor
          · exact Or.imp_right Or.inr
          · rintro (old | rfl | later)
            · exact Or.inl old
            · exact Or.inl known
            · exact Or.inr later
        · obtain ⟨t, weight, value⟩ := equal v List.mem_cons_self src source
          simp only [weight, isNumeric, value, Option.isSome_some, if_true] at accepted
          have rest := ih equal.tail accepted
          refine ⟨fun u member => first u member (rest.sourced u), ?_, ?_⟩
          · intro other
            rw [rest.held, front, AList.mem_insert, or_assoc, or_left_comm]
          · intro weighted
            exact rest.weighted (weighted.insert (by simp [bcnum, value]))

/-- A snapshot totalStake() sums is one the quorum predicate indexes, over the same stake. -/
theorem total_stake_accepts {validators : Snapshot} {w : String → ℚ} {S : ℚ}
    (equal : SameWeights validators.rows w) (accepted : totalStake validators = .ok S) :
    validators.truncated = false ∧ WellFormed validators.rows w ∧
      S = total w (sources validators.rows) := by
  simp only [totalStake] at accepted
  split at accepted
  · simp at accepted
  · rename_i whole
    cases pass : weighRows ∅ validators.rows with
    | error reason => simp [pass, Except.bind] at accepted
    | ok weightBySource =>
      simp only [pass, Except.bind] at accepted
      split at accepted
      · simp at accepted
      · rename_i sign
        rw [Except.ok.injEq] at accepted
        have weighed := weigh_rows_weighed equal pass
        have known : Weighted w weightBySource := by
          apply weighed.weighted
          intro src t found
          simp at found
        have held : ∀ src, src ∈ weightBySource ↔ src ∈ sources validators.rows := by
          intro src
          rw [weighed.held]
          simp
        refine ⟨by simpa using whole, ⟨weighed.sourced, equal, ?_⟩, ?_⟩
        · intro v member src source
          have listed : src ∈ weightBySource.keys :=
            AList.mem_keys.mp ((held src).mpr (mem_sources.mpr ⟨v, member, source⟩))
          rw [weighted_entries known] at sign
          simp only [List.any_eq_true, decide_eq_true_eq, not_exists, not_and, not_lt] at sign
          exact sign _ (List.mem_map.mpr ⟨src, listed, rfl⟩)
        · rw [← accepted, weights_total known held]

/- The first of the heaviest sources in snapshot order. -/
structure FirstHeaviest (rows : List Row) (w : String → ℚ) (top : String) : Prop where
  heaviest : ∀ src ∈ sources rows, w src ≤ w top
  first : ∃ front v back, rows = front ++ v :: back ∧ v.source = some top ∧
    ∀ src ∈ sources front, w src < w top

theorem FirstHeaviest.listed {rows : List Row} {w : String → ℚ} {top : String}
    (largest : FirstHeaviest rows w top) : top ∈ sources rows := by
  obtain ⟨front, v, back, rfl, source, -⟩ := largest.first
  exact mem_sources.mpr ⟨v, by simp, source⟩

theorem mem_sources_concat {rows : List Row} {v : Row} {src other : String}
    (source : v.source = some src) :
    other ∈ sources (rows ++ [v]) ↔ other ∈ sources rows ∨ other = src := by
  simp only [mem_sources, List.mem_append, List.mem_singleton, or_and_right, exists_or,
    exists_eq_left, source, Option.some.injEq, eq_comm (a := other)]

theorem FirstHeaviest.keep {rows : List Row} {v : Row} {w : String → ℚ} {top src : String}
    (largest : FirstHeaviest rows w top) (source : v.source = some src) (light : w src ≤ w top) :
    FirstHeaviest (rows ++ [v]) w top := by
  refine ⟨?_, ?_⟩
  · intro other member
    rcases (mem_sources_concat source).mp member with old | rfl
    · exact largest.heaviest other old
    · exact light
  · obtain ⟨front, u, back, rfl, top_row, lighter⟩ := largest.first
    exact ⟨front, u, back ++ [v], by simp, top_row, lighter⟩

theorem FirstHeaviest.replace {rows : List Row} {v : Row} {w : String → ℚ} {src : String}
    (source : v.source = some src) (heavy : ∀ other ∈ sources rows, w other < w src) :
    FirstHeaviest (rows ++ [v]) w src := by
  refine ⟨?_, rows, v, [], rfl, source, heavy⟩
  intro other member
  rcases (mem_sources_concat source).mp member with old | rfl
  · exact (heavy other old).le
  · exact le_refl _

/- What the two passes over the rows have found: each source once, and the largest. -/
structure Ranked (w : String → ℚ) (rows : List Row) (bySource : OrderedMap String ℚ) : Prop where
  held : ∀ src, bySource.has src = true ↔ src ∈ sources rows
  largest : ∀ best, largestOf bySource = some best →
    best.2 = w best.1 ∧ FirstHeaviest rows w best.1
  empty : largestOf bySource = none → rows = []

theorem set_absent_entries {m : OrderedMap String ℚ} {src : String} (absent : ¬ m.has src = true)
    (q : ℚ) : (m.set src q).entries = m.entries ++ [(src, q)] := by
  have missing : src ∉ m.entries.map Prod.fst := by
    rw [OrderedMap.has_iff_mem_keys] at absent
    exact absent
  simp only [OrderedMap.set, dif_neg missing]

theorem weigh_row_ranked {w : String → ℚ} {rows : List Row} {v : Row}
    {bySource : OrderedMap String ℚ} (ranked : Ranked w rows bySource) {src t : String}
    (source : v.source = some src) (weight : v.weight = some t)
    (value : signedValue (trim t.toList) = some (w src)) :
    Ranked w (rows ++ [v]) (weighRow bySource v) := by
  have number : bcnum t = w src := by simp [bcnum, value]
  simp only [weighRow, source, weight, Option.getD_some, number]
  split
  · rename_i known
    have listed := (ranked.held src).mp known
    refine ⟨?_, ?_, ?_⟩
    · intro other
      rw [ranked.held, mem_sources_concat source]
      constructor
      · exact Or.inl
      · rintro (old | rfl)
        · exact old
        · exact listed
    · intro best found
      obtain ⟨same, largest⟩ := ranked.largest best found
      exact ⟨same, largest.keep source (largest.heaviest src listed)⟩
    · intro none_found
      rw [ranked.empty none_found] at listed
      simp [sources] at listed
  · rename_i absent
    have scanned : largestOf (bySource.set src (w src)) =
        heavier (largestOf bySource) (src, w src) := by
      simp only [largestOf, set_absent_entries absent, List.foldl_append, List.foldl_cons,
        List.foldl_nil]
    refine ⟨?_, ?_, ?_⟩
    · intro other
      rw [OrderedMap.has_iff_mem_keys, OrderedMap.mem_keys_set, ← OrderedMap.has_iff_mem_keys,
        ranked.held, mem_sources_concat source, or_comm]
    · intro best found
      rw [scanned] at found
      cases old : largestOf bySource with
      | none =>
        rw [old, heavier, Option.some.injEq] at found
        subst found
        refine ⟨rfl, FirstHeaviest.replace source ?_⟩
        rw [ranked.empty old]
        simp [sources]
      | some kept =>
        obtain ⟨same, largest⟩ := ranked.largest kept old
        rw [old, heavier] at found
        split at found
        · rename_i heavy
          rw [Option.some.injEq] at found
          subst found
          refine ⟨rfl, FirstHeaviest.replace source ?_⟩
          intro other member
          rw [same] at heavy
          exact lt_of_le_of_lt (largest.heaviest other member) heavy
        · rename_i light
          rw [Option.some.injEq] at found
          subst found
          rw [same] at light
          exact ⟨same, largest.keep source (not_lt.mp light)⟩
    · intro none_found
      rw [scanned] at none_found
      unfold heavier at none_found
      split at none_found
      · simp at none_found
      · split at none_found <;> simp at none_found

theorem weights_by_source_ranked {rows : List Row} {w : String → ℚ} (valid : WellFormed rows w) :
    Ranked w rows (weightsBySource rows) := by
  induction rows using List.reverseRecOn with
  | nil =>
    refine ⟨?_, ?_, fun _ => rfl⟩
    · intro src
      simp [weightsBySource, OrderedMap.has, sources]
    · intro best found
      simp [weightsBySource, largestOf, OrderedMap.empty] at found
  | append_singleton rows v ih =>
    have before : WellFormed rows w :=
      ⟨fun u member => valid.sourced u (List.mem_append_left _ member),
        fun u member => valid.weighted u (List.mem_append_left _ member),
        fun u member => valid.nonneg u (List.mem_append_left _ member)⟩
    have last : v ∈ rows ++ [v] := by simp
    obtain ⟨src, source, -⟩ := valid.sourced v last
    obtain ⟨t, weight, value⟩ := valid.weighted v last src source
    have step := weigh_row_ranked (ih before) source weight value
    simpa [weightsBySource] using step

section Verdict
variable (toLowerCase : String → String)

/- The other sources each of whose keys is listed again, further down, for another source. -/
def hidden (rows : List Row) (lost : String) : Finset String :=
  ((sources rows).erase lost).filter (fun src => ∀ v ∈ rows, v.source = some src →
    keySource toLowerCase (toLowerCase v.pubkey) rows ≠ some src)

/- The lost source's own weight when a key of another source is last listed for it. -/
def returned (rows : List Row) (w : String → ℚ) (lost : String) : ℚ :=
  if ∃ v ∈ rows, v.source ≠ some lost ∧
    keySource toLowerCase (toLowerCase v.pubkey) rows = some lost then w lost else 0

/- Shared keys leave the arithmetic of losing a source as it is: they hide less than the
   slack when the rest hold over two thirds, and give back no more than is missing when
   the rest without the largest do not. -/
structure KeysNeutral (rows : List Row) (w : String → ℚ) (top : String) : Prop where
  held : 2 * total w (sources rows) < 3 * (total w (sources rows) - w top) →
    ∀ lost ∈ sources rows,
      3 * (total w (hidden toLowerCase rows lost) - returned toLowerCase rows w lost) <
        total w (sources rows) - 3 * w lost
  lacking : 3 * (total w (sources rows) - w top) ≤ 2 * total w (sources rows) →
    3 * (returned toLowerCase rows w top - total w (hidden toLowerCase rows top)) ≤
      3 * w top - total w (sources rows)

/- The lose-one report against the arithmetic of the stake and against the gate. -/
structure AgreesWithGate (fmt : ℚ → String) (validators : Snapshot) (w : String → ℚ)
    (top : String) : Prop where
  verdict : (quorumAfterLosingLargest toLowerCase fmt validators).survives = true ↔
    2 * total w (sources validators.rows) < 3 * (total w (sources validators.rows) - w top)
  every : (quorumAfterLosingLargest toLowerCase fmt validators).survives = true →
    ∀ lost ∈ sources validators.rows,
      meetsStakeThreshold toLowerCase validators (signersWithout (some lost) validators.rows) = true

variable {toLowerCase}

theorem mem_counted_without {rows : List Row} {lost src : String} :
    src ∈ counted toLowerCase rows (signersWithout (some lost) rows) ↔
      ∃ v ∈ rows, v.source ≠ some lost ∧
        keySource toLowerCase (toLowerCase v.pubkey) rows = some src := by
  simp [mem_counted, signersWithout, and_assoc]

theorem mem_counted_other {rows : List Row} {lost src : String} (other : src ≠ lost) :
    src ∈ counted toLowerCase rows (signersWithout (some lost) rows) ↔
      src ∈ sources rows ∧ src ∉ hidden toLowerCase rows lost := by
  rw [mem_counted_without]
  simp only [hidden, Finset.mem_filter, Finset.mem_erase, other, ne_eq, not_false_eq_true,
    true_and, not_and, not_forall, not_not, exists_prop]
  constructor
  · rintro ⟨v, -, -, found⟩
    obtain ⟨u, member, key, source⟩ := key_source_row found
    refine ⟨mem_sources.mpr ⟨u, member, source⟩, fun _ => ⟨u, member, source, ?_⟩⟩
    rw [key]
    exact found
  · rintro ⟨listed, visible⟩
    obtain ⟨v, member, source, found⟩ := visible listed
    refine ⟨v, member, ?_, found⟩
    rw [source]
    exact fun same => other (Option.some.inj same)

/-- What the gate counts once a source is lost: the rest less the hidden sources, and the
    lost source again when another's key still resolves to it. -/
theorem counted_without_total {rows : List Row} {w : String → ℚ} {lost : String}
    (listed : lost ∈ sources rows) :
    total w (counted toLowerCase rows (signersWithout (some lost) rows)) =
      total w (sources rows) - w lost - total w (hidden toLowerCase rows lost) +
        returned toLowerCase rows w lost := by
  have rest : (counted toLowerCase rows (signersWithout (some lost) rows)).erase lost =
      (sources rows).erase lost \ hidden toLowerCase rows lost := by
    ext src
    simp only [Finset.mem_erase, Finset.mem_sdiff, and_assoc]
    exact and_congr_right mem_counted_other
  have inside : hidden toLowerCase rows lost ⊆ (sources rows).erase lost :=
    Finset.filter_subset _ _
  have parts := Finset.sum_sdiff (f := w) inside
  have all := Finset.sum_erase_add (sources rows) w listed
  rw [← rest] at parts
  simp only [total]
  by_cases back : lost ∈ counted toLowerCase rows (signersWithout (some lost) rows)
  · have again := Finset.sum_erase_add _ w back
    rw [returned, if_pos (mem_counted_without.mp back)]
    linarith
  · have same := Finset.erase_eq_of_notMem back
    rw [same] at parts
    rw [returned, if_neg (fun shared => back (mem_counted_without.mpr shared))]
    linarith

/-- The gate with every other source signing. -/
theorem meets_without_iff {rows : List Row} {w : String → ℚ} (valid : WellFormed rows w)
    (positive : 0 < total w (sources rows)) {lost : String} (listed : lost ∈ sources rows) :
    meetsStakeThreshold toLowerCase ⟨rows, false⟩ (signersWithout (some lost) rows) = true ↔
      3 * (total w (hidden toLowerCase rows lost) - returned toLowerCase rows w lost) <
        total w (sources rows) - 3 * w lost := by
  rw [meets_stake_iff_counted valid, counted_without_total listed]
  constructor
  · rintro ⟨-, more⟩
    linarith
  · intro slack
    exact ⟨positive, by linarith⟩

/-- The report's verdict is the gate's, asked without the first of the heaviest sources. -/
theorem survives_largest (toLowerCase : String → String) (fmt : ℚ → String) {validators : Snapshot} {w : String → ℚ} {S : ℚ}
    (equal : SameWeights validators.rows w) (accepted : totalStake validators = .ok S)
    (positive : 0 < S) : ∃ top, FirstHeaviest validators.rows w top ∧
      (quorumAfterLosingLargest toLowerCase fmt validators).survives =
        meetsStakeThreshold toLowerCase validators (signersWithout (some top) validators.rows) := by
  obtain ⟨-, valid, sum⟩ := total_stake_accepts equal accepted
  have ranked := weights_by_source_ranked valid
  cases found : largestOf (weightsBySource validators.rows) with
  | none =>
    rw [sum, ranked.empty found] at positive
    simp [total, sources] at positive
  | some best =>
    refine ⟨best.1, (ranked.largest best found).2, ?_⟩
    simp only [quorumAfterLosingLargest, accepted, not_le.mpr positive, if_false, found,
      Report.survives, Option.map_some]

end Verdict

/- A key delegated by the smallest of four sources and, further down, by the largest. -/
def sharedWithLargest : List Row :=
  [⟨"k1", some "A", some "40"⟩, ⟨"k", some "B", some "20"⟩, ⟨"k3", some "C", some "20"⟩,
    ⟨"k4", some "D", some "20"⟩, ⟨"k", some "A", some "40"⟩]

def sharedWeight (src : String) : ℚ := if src = "A" then 40 else 20

theorem shared_with_largest_weights : SameWeights sharedWithLargest sharedWeight := by
  intro v member src source
  fin_cases member <;> cases source
  · exact ⟨"40", rfl, by decide +kernel⟩
  · exact ⟨"20", rfl, by decide +kernel⟩
  · exact ⟨"20", rfl, by decide +kernel⟩
  · exact ⟨"20", rfl, by decide +kernel⟩
  · exact ⟨"40", rfl, by decide +kernel⟩

end XChainHub.StakeShare
