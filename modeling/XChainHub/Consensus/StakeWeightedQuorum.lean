import Mathlib.Data.List.AList
import Mathlib.Tactic.FinCases
import XChainHub.Library.DecimalText
import XChainHub.Library.QuorumSets

/-!
Source-deduped stake tally of consensus/stake_weighted_quorum.js. Field values
are their String() text; a null, undefined or missing field is none, and a null
row is a row without a source. toLowerCase stays an arbitrary function, and
bignumber arithmetic is exact rational arithmetic.
-/
namespace XChainHub.StakeWeightedQuorum
open DecimalText QuorumSets

structure Row where
  pubkey : String
  source : Option String
  weight : Option String
  deriving DecidableEq, Repr

structure Snapshot where
  rows : List Row
  truncated : Bool
  deriving DecidableEq

abbrev TextMap := AList (fun _ : String => String)

/- Non-numeric text counts as zero. -/
def bcnum (v : String) : ℚ := (signedValue (trim v.toList)).getD 0

def isNumeric (v : String) : Bool := (signedValue (trim v.toList)).isSome

def isBlank (v : String) : Bool := (trim v.toList).isEmpty

structure StakeIndex where
  weightBySource : TextMap
  pubkeyToSource : TextMap

def StakeIndex.empty : StakeIndex := ⟨∅, ∅⟩

section Tally
variable (toLowerCase : String → String)

/- One row: the last row of a key decides its source, the first row of a source its weight. -/
def StakeIndex.addRow (index : StakeIndex) (v : Row) : Option StakeIndex :=
  match v.source with
  | none => none
  | some src =>
    if isBlank src then none
    else
      let pubkeyToSource := index.pubkeyToSource.insert (toLowerCase v.pubkey) src
      if src ∈ index.weightBySource then some { index with pubkeyToSource }
      else
        match v.weight with
        | none => none
        | some w =>
          if isNumeric w then
            some ⟨index.weightBySource.insert src w, pubkeyToSource⟩
          else none

def indexFrom (index : StakeIndex) : List Row → Option StakeIndex
  | [] => some index
  | v :: rows => (index.addRow toLowerCase v).bind (fun next => indexFrom next rows)

def indexStakeSources (rows : List Row) : Option StakeIndex :=
  indexFrom toLowerCase StakeIndex.empty rows

def weights (m : TextMap) : List ℚ := m.entries.map (fun e => bcnum e.2)

def sumStakeWeights (weightBySource : TextMap) : Option ℚ :=
  if (weights weightBySource).any (· < 0) then none
  else if (weights weightBySource).sum ≤ 0 then none
  else some (weights weightBySource).sum

structure SignerTally where
  seenPubkeys : Finset String
  countedSources : Finset String
  tally : ℚ

def SignerTally.addSigner (index : StakeIndex) (t : SignerTally) (pk : String) : SignerTally :=
  let lpk := toLowerCase pk
  if lpk ∈ t.seenPubkeys then t
  else
    let seenPubkeys := insert lpk t.seenPubkeys
    match index.pubkeyToSource.lookup lpk with
    | none => { t with seenPubkeys }
    | some src =>
      if src ∈ t.countedSources then { t with seenPubkeys }
      else
        ⟨seenPubkeys, insert src t.countedSources,
          t.tally + bcnum ((index.weightBySource.lookup src).getD "0")⟩

def tallySigners (index : StakeIndex) (signerPubkeys : List String) : SignerTally :=
  signerPubkeys.foldl (SignerTally.addSigner toLowerCase index) ⟨∅, ∅, 0⟩

def sumSignerStake (index : StakeIndex) (signerPubkeys : List String) : ℚ :=
  (tallySigners toLowerCase index signerPubkeys).tally

def meetsStakeThreshold (validators : Snapshot) (signerPubkeys : List String) : Bool :=
  if validators.truncated then false
  else
    match indexStakeSources toLowerCase validators.rows with
    | none => false
    | some index =>
      match sumStakeWeights index.weightBySource with
      | none => false
      | some S => decide (S * 2 < sumSignerStake toLowerCase index signerPubkeys * 3)

/- A snapshot the tally accepts: every source present and weighted by w. -/
structure WellFormed (rows : List Row) (w : String → ℚ) : Prop where
  sourced : ∀ v ∈ rows, ∃ src, v.source = some src ∧ isBlank src = false
  weighted : ∀ v ∈ rows, ∀ src, v.source = some src →
    ∃ t, v.weight = some t ∧ signedValue (trim t.toList) = some (w src)
  nonneg : ∀ v ∈ rows, ∀ src, v.source = some src → 0 ≤ w src

/- The order-free reading of the threshold. -/
def sources (rows : List Row) : Finset String := (rows.filterMap Row.source).toFinset

def signed (rows : List Row) (signers : List String) : Finset String :=
  sources (rows.filter (fun v => decide (toLowerCase v.pubkey ∈ signers.map toLowerCase)))

def total (w : String → ℚ) (srcs : Finset String) : ℚ := ∑ src ∈ srcs, w src

/- The source of the last row that carries the key. -/
def keySource (key : String) : List Row → Option String
  | [] => none
  | v :: rows =>
    (keySource key rows).or (if toLowerCase v.pubkey = key then v.source else none)

/- Signed sources whose every signing key is listed again, further down, for another source. -/
def shadowed (rows : List Row) (signers : List String) : Finset String :=
  (signed toLowerCase rows signers).filter (fun src => ∀ v ∈ rows, v.source = some src →
    toLowerCase v.pubkey ∈ signers.map toLowerCase →
      keySource toLowerCase (toLowerCase v.pubkey) rows ≠ some src)

def counted (rows : List Row) (signers : List String) : Finset String :=
  ((signers.map toLowerCase).filterMap (fun key => keySource toLowerCase key rows)).toFinset

def Weighted (w : String → ℚ) (m : TextMap) : Prop :=
  ∀ src t, m.lookup src = some t → bcnum t = w src

variable {toLowerCase}

theorem WellFormed.tail {v : Row} {rows : List Row} {w : String → ℚ}
    (valid : WellFormed (v :: rows) w) : WellFormed rows w :=
  ⟨fun u member => valid.sourced u (List.mem_cons_of_mem v member),
    fun u member => valid.weighted u (List.mem_cons_of_mem v member),
    fun u member => valid.nonneg u (List.mem_cons_of_mem v member)⟩

theorem mem_sources {rows : List Row} {src : String} :
    src ∈ sources rows ↔ ∃ v ∈ rows, v.source = some src := by
  simp [sources]

theorem mem_signed {rows : List Row} {signers : List String} {src : String} :
    src ∈ signed toLowerCase rows signers ↔
      ∃ v ∈ rows, toLowerCase v.pubkey ∈ signers.map toLowerCase ∧ v.source = some src := by
  simp only [signed, mem_sources, List.mem_filter, decide_eq_true_eq, and_assoc]

theorem signed_subset_sources (rows : List Row) (signers : List String) :
    signed toLowerCase rows signers ⊆ sources rows := by
  intro src member
  obtain ⟨v, inRows, -, source⟩ := mem_signed.mp member
  exact mem_sources.mpr ⟨v, inRows, source⟩

theorem WellFormed.source_nonneg {rows : List Row} {w : String → ℚ} (valid : WellFormed rows w)
    {src : String} (member : src ∈ sources rows) : 0 ≤ w src := by
  obtain ⟨v, inRows, source⟩ := mem_sources.mp member
  exact valid.nonneg v inRows src source

theorem key_source_row {key src : String} {rows : List Row}
    (found : keySource toLowerCase key rows = some src) :
    ∃ v ∈ rows, toLowerCase v.pubkey = key ∧ v.source = some src := by
  induction rows with
  | nil => simp [keySource] at found
  | cons v rows ih =>
    simp only [keySource, Option.or_eq_some_iff] at found
    rcases found with later | ⟨-, here⟩
    · obtain ⟨u, member, row⟩ := ih later
      exact ⟨u, List.mem_cons_of_mem v member, row⟩
    · split at here
      · rename_i same
        exact ⟨v, List.mem_cons_self, same, here⟩
      · simp at here

theorem mem_counted {rows : List Row} {signers : List String} {src : String} :
    src ∈ counted toLowerCase rows signers ↔
      ∃ pk ∈ signers, keySource toLowerCase (toLowerCase pk) rows = some src := by
  simp [counted]

theorem counted_eq_signed_sdiff (rows : List Row) (signers : List String) :
    counted toLowerCase rows signers =
      signed toLowerCase rows signers \ shadowed toLowerCase rows signers := by
  ext src
  simp only [Finset.mem_sdiff, shadowed, Finset.mem_filter, mem_counted]
  constructor
  · rintro ⟨pk, member, found⟩
    obtain ⟨v, inRows, key, source⟩ := key_source_row found
    have signing : toLowerCase v.pubkey ∈ signers.map toLowerCase :=
      List.mem_map.mpr ⟨pk, member, key.symm⟩
    refine ⟨mem_signed.mpr ⟨v, inRows, signing, source⟩, ?_⟩
    rintro ⟨-, hidden⟩
    exact hidden v inRows source signing (by rw [key]; exact found)
  · rintro ⟨represented, visible⟩
    have : ¬ ∀ v ∈ rows, v.source = some src → toLowerCase v.pubkey ∈ signers.map toLowerCase →
        keySource toLowerCase (toLowerCase v.pubkey) rows ≠ some src :=
      fun hidden => visible ⟨represented, hidden⟩
    push Not at this
    obtain ⟨v, -, -, signing, found⟩ := this
    obtain ⟨pk, member, same⟩ := List.mem_map.mp signing
    exact ⟨pk, member, by rw [same]; exact found⟩

theorem shadowed_subset_signed (toLowerCase : String → String) (rows : List Row)
    (signers : List String) :
    shadowed toLowerCase rows signers ⊆ signed toLowerCase rows signers :=
  Finset.filter_subset _ _

theorem counted_subset_sources (toLowerCase : String → String) (rows : List Row)
    (signers : List String) :
    counted toLowerCase rows signers ⊆ sources rows := by
  rw [counted_eq_signed_sdiff]
  exact Finset.Subset.trans Finset.sdiff_subset (signed_subset_sources rows signers)

theorem counted_total (rows : List Row) (signers : List String) (w : String → ℚ) :
    total w (counted toLowerCase rows signers) =
      total w (signed toLowerCase rows signers) - total w (shadowed toLowerCase rows signers) := by
  have parts := Finset.sum_sdiff (f := w) (shadowed_subset_signed toLowerCase rows signers)
  rw [← counted_eq_signed_sdiff] at parts
  simp only [total]
  linarith

theorem counted_monotone (toLowerCase : String → String) (rows : List Row)
    {signers more : List String} (sub : signers ⊆ more) :
    counted toLowerCase rows signers ⊆ counted toLowerCase rows more := by
  intro src member
  obtain ⟨pk, signer, found⟩ := mem_counted.mp member
  exact mem_counted.mpr ⟨pk, sub signer, found⟩

theorem Weighted.insert {w : String → ℚ} {m : TextMap} {src t : String} (known : Weighted w m)
    (value : bcnum t = w src) : Weighted w (m.insert src t) := by
  intro other u found
  by_cases same : other = src
  · subst same
    rw [AList.lookup_insert, Option.some.injEq] at found
    rw [← found]
    exact value
  · rw [AList.lookup_insert_ne same] at found
    exact known other u found

/- What one pass over the rows leaves in the two maps. -/
structure Indexed (toLowerCase : String → String) (w : String → ℚ) (rows : List Row)
    (before after : StakeIndex) : Prop where
  keys : ∀ key, after.pubkeyToSource.lookup key =
    (keySource toLowerCase key rows).or (before.pubkeyToSource.lookup key)
  held : ∀ src, src ∈ after.weightBySource ↔ src ∈ before.weightBySource ∨ src ∈ sources rows
  weighted : Weighted w before.weightBySource → Weighted w after.weightBySource

theorem add_row_indexed (toLowerCase : String → String) {w : String → ℚ} {v : Row} {rows : List Row}
    (valid : WellFormed (v :: rows) w) (index : StakeIndex) :
    ∃ next, index.addRow toLowerCase v = some next ∧
      Indexed toLowerCase w [v] index next := by
  obtain ⟨src, source, filled⟩ := valid.sourced v List.mem_cons_self
  obtain ⟨t, weight, value⟩ := valid.weighted v List.mem_cons_self src source
  have keys : ∀ key, (index.pubkeyToSource.insert (toLowerCase v.pubkey) src).lookup key =
      (keySource toLowerCase key [v]).or (index.pubkeyToSource.lookup key) := by
    intro key
    simp only [keySource, source]
    by_cases same : toLowerCase v.pubkey = key
    · subst same
      simp
    · rw [AList.lookup_insert_ne (fun eq => same eq.symm)]
      simp [same]
  by_cases known : src ∈ index.weightBySource
  · refine ⟨{ index with pubkeyToSource := index.pubkeyToSource.insert (toLowerCase v.pubkey) src },
      by simp [StakeIndex.addRow, source, filled, known], keys, ?_, fun weighted => weighted⟩
    intro other
    simp only [mem_sources, List.mem_singleton, exists_eq_left, source, Option.some.injEq]
    constructor
    · exact Or.inl
    · rintro (held | same)
      · exact held
      · rw [← same]; exact known
  · refine ⟨⟨index.weightBySource.insert src t,
      index.pubkeyToSource.insert (toLowerCase v.pubkey) src⟩,
      by simp [StakeIndex.addRow, source, filled, known, weight, isNumeric, value], keys, ?_, ?_⟩
    · intro other
      simp only [AList.mem_insert, mem_sources, List.mem_singleton, exists_eq_left, source,
        Option.some.injEq, eq_comm (a := other)]
      exact or_comm
    · intro weighted
      exact weighted.insert (by simp [bcnum, value])

theorem Indexed.cons {w : String → ℚ} {v : Row} {rows : List Row} {before middle after : StakeIndex}
    (first : Indexed toLowerCase w [v] before middle)
    (rest : Indexed toLowerCase w rows middle after) :
    Indexed toLowerCase w (v :: rows) before after := by
  refine ⟨?_, ?_, fun weighted => rest.weighted (first.weighted weighted)⟩
  · intro key
    rw [rest.keys, first.keys]
    simp only [keySource, Option.none_or, Option.or_assoc]
  · intro src
    rw [rest.held, first.held]
    simp only [mem_sources, List.mem_cons, exists_eq_or_imp, List.not_mem_nil, false_and,
      exists_false, false_or, or_assoc]

theorem index_from_indexed (toLowerCase : String → String) {w : String → ℚ} {rows : List Row}
    (valid : WellFormed rows w) (index : StakeIndex) :
    ∃ final, indexFrom toLowerCase index rows = some final ∧
      Indexed toLowerCase w rows index final := by
  induction rows generalizing index with
  | nil =>
    refine ⟨index, rfl, ?_, ?_, fun weighted => weighted⟩
    · intro key; rfl
    · intro src; simp [sources]
  | cons v rows ih =>
    obtain ⟨next, step, first⟩ := add_row_indexed toLowerCase valid index
    obtain ⟨final, run, rest⟩ := ih valid.tail next
    exact ⟨final, by simp [indexFrom, step, run], first.cons rest⟩

theorem weighted_entries {w : String → ℚ} {m : TextMap} (known : Weighted w m) :
    weights m = m.keys.map w := by
  simp only [weights, AList.keys, List.keys, List.map_map]
  apply List.map_congr_left
  intro entry member
  exact known entry.1 entry.2 (AList.mem_lookup_iff.mpr member)

theorem weights_total {w : String → ℚ} {m : TextMap} {rows : List Row} (known : Weighted w m)
    (held : ∀ src, src ∈ m ↔ src ∈ sources rows) : (weights m).sum = total w (sources rows) := by
  have same : m.keys.toFinset = sources rows := by
    ext src
    rw [List.mem_toFinset, ← AList.mem_keys]
    exact held src
  rw [weighted_entries known, ← List.sum_toFinset w m.keys_nodup, same]
  rfl

/- The running tally is the weight of the sources the seen keys resolve to. -/
structure TallyOf (toLowerCase : String → String) (w : String → ℚ) (index : StakeIndex)
    (done : List String) (t : SignerTally) : Prop where
  seen : ∀ key, key ∈ t.seenPubkeys ↔ key ∈ done.map toLowerCase
  counted : ∀ src, src ∈ t.countedSources ↔
    ∃ pk ∈ done, index.pubkeyToSource.lookup (toLowerCase pk) = some src
  sum : t.tally = total w t.countedSources

theorem add_signer_tally (toLowerCase : String → String) {w : String → ℚ} {index : StakeIndex}
    {done : List String} {t : SignerTally} (known : Weighted w index.weightBySource)
    (held : ∀ key src, index.pubkeyToSource.lookup key = some src → src ∈ index.weightBySource)
    (so_far : TallyOf toLowerCase w index done t) (pk : String) :
    TallyOf toLowerCase w index (done ++ [pk])
      (t.addSigner toLowerCase index pk) := by
  obtain ⟨seen, counted, sum⟩ := so_far
  have grow : ∀ key, key ∈ insert (toLowerCase pk) t.seenPubkeys ↔
      key ∈ (done ++ [pk]).map toLowerCase := by
    intro key
    simp only [Finset.mem_insert, seen, List.map_append, List.map_cons, List.map_nil,
      List.mem_append, List.mem_singleton]
    exact or_comm
  have extend : ∀ src,
      (∃ u ∈ done ++ [pk], index.pubkeyToSource.lookup (toLowerCase u) = some src) ↔
      src ∈ t.countedSources ∨ index.pubkeyToSource.lookup (toLowerCase pk) = some src := by
    intro src
    simp only [List.mem_append, List.mem_singleton, or_and_right, exists_or, exists_eq_left,
      counted]
  simp only [SignerTally.addSigner]
  split
  · rename_i again
    obtain ⟨u, earlier, same⟩ := List.mem_map.mp ((seen _).mp again)
    refine ⟨?_, ?_, sum⟩
    · intro key
      rw [← grow, Finset.insert_eq_self.mpr again]
    · intro src
      rw [extend]
      refine ⟨Or.inl, ?_⟩
      rintro (old | new)
      · exact old
      · exact (counted src).mpr ⟨u, earlier, by rw [same]; exact new⟩
  · split
    · rename_i unknown
      refine ⟨grow, ?_, sum⟩
      intro src
      rw [extend, unknown]
      simp
    · rename_i src resolved
      split
      · rename_i already
        refine ⟨grow, ?_, sum⟩
        intro other
        rw [extend, resolved]
        refine ⟨Or.inl, ?_⟩
        rintro (old | new)
        · exact old
        · rw [← Option.some.inj new]; exact already
      · rename_i fresh
        refine ⟨grow, ?_, ?_⟩
        · intro other
          rw [extend, resolved, Finset.mem_insert, Option.some.injEq, eq_comm (a := other)]
          exact or_comm
        · obtain ⟨text, found⟩ := Option.isSome_iff_exists.mp
            (AList.lookup_isSome.mpr (held _ _ resolved))
          simp only [found, Option.getD_some, known src text found, total,
            Finset.sum_insert fresh, sum, add_comm]

theorem tally_signers_tally (toLowerCase : String → String) {w : String → ℚ} {index : StakeIndex}
    (known : Weighted w index.weightBySource)
    (held : ∀ key src, index.pubkeyToSource.lookup key = some src → src ∈ index.weightBySource)
    (signers : List String) : TallyOf toLowerCase w index signers
      (tallySigners toLowerCase index signers) := by
  induction signers using List.reverseRecOn with
  | nil => exact ⟨by simp [tallySigners], by simp [tallySigners], by simp [tallySigners, total]⟩
  | append_singleton done pk ih =>
    have step := add_signer_tally toLowerCase known held ih pk
    simpa [tallySigners] using step

/-- On a snapshot the tally accepts, the verdict is the two-thirds test over the
    counted sources. -/
theorem meets_stake_iff_counted {rows : List Row} {w : String → ℚ} (valid : WellFormed rows w)
    (signers : List String) : meetsStakeThreshold toLowerCase ⟨rows, false⟩ signers = true ↔
      0 < total w (sources rows) ∧
        2 * total w (sources rows) < 3 * total w (counted toLowerCase rows signers) := by
  obtain ⟨index, built, keys, held, weighted⟩ :=
    index_from_indexed toLowerCase valid StakeIndex.empty
  have known : Weighted w index.weightBySource := by
    apply weighted
    intro src t found
    simp [StakeIndex.empty] at found
  have holds : ∀ src, src ∈ index.weightBySource ↔ src ∈ sources rows := by
    intro src
    rw [held]
    simp [StakeIndex.empty]
  have resolves : ∀ key, index.pubkeyToSource.lookup key = keySource toLowerCase key rows := by
    intro key
    rw [keys]
    simp [StakeIndex.empty]
  have member : ∀ key src, index.pubkeyToSource.lookup key = some src →
      src ∈ index.weightBySource := by
    intro key src found
    rw [resolves] at found
    obtain ⟨v, inRows, -, source⟩ := key_source_row found
    exact (holds src).mpr (mem_sources.mpr ⟨v, inRows, source⟩)
  have tally := tally_signers_tally toLowerCase known member signers
  have same : (tallySigners toLowerCase index signers).countedSources =
      counted toLowerCase rows signers := by
    ext src
    simp only [tally.counted, mem_counted, resolves]
  have none_negative : (weights index.weightBySource).any (· < 0) = false := by
    rw [weighted_entries known, List.any_eq_false]
    intro q inList
    obtain ⟨src, inKeys, rfl⟩ := List.mem_map.mp inList
    have nonneg := valid.source_nonneg ((holds src).mp (AList.mem_keys.mpr inKeys))
    simpa using nonneg
  simp only [meetsStakeThreshold, indexStakeSources, built, sumStakeWeights, none_negative,
    weights_total known holds, sumSignerStake, tally.sum, same]
  by_cases positive : 0 < total w (sources rows)
  · simp only [Bool.false_eq_true, if_false, not_le.mpr positive, decide_eq_true_eq, positive,
      true_and, mul_comm]
  · simp [not_lt.mp positive, positive]

theorem total_nonneg {rows : List Row} {w : String → ℚ} (valid : WellFormed rows w)
    {srcs : Finset String} (sub : srcs ⊆ sources rows) : 0 ≤ total w srcs :=
  Finset.sum_nonneg (fun _ member => valid.source_nonneg (sub member))

theorem total_monotone {rows : List Row} {w : String → ℚ} (valid : WellFormed rows w)
    {few many : Finset String} (sub : few ⊆ many) (bound : many ⊆ sources rows) :
    total w few ≤ total w many :=
  weight_monotone w (fun _ member => valid.source_nonneg (bound member)) sub

theorem sources_perm {rows other : List Row} (perm : other.Perm rows) :
    sources other = sources rows := by
  ext src
  simp only [mem_sources, perm.mem_iff]

theorem signed_perm {rows other : List Row} (perm : other.Perm rows) (signers : List String) :
    signed toLowerCase other signers = signed toLowerCase rows signers := by
  ext src
  simp only [mem_signed, perm.mem_iff]

theorem WellFormed.perm {rows other : List Row} {w : String → ℚ} (valid : WellFormed rows w)
    (perm : other.Perm rows) : WellFormed other w :=
  ⟨fun v member => valid.sourced v (perm.mem_iff.mp member),
    fun v member => valid.weighted v (perm.mem_iff.mp member),
    fun v member => valid.nonneg v (perm.mem_iff.mp member)⟩

/- An order-free stand-in for the key map: each listed key goes to one of its sources. -/
structure Resolves (toLowerCase : String → String) (rows : List Row)
    (pick : String → Option String) : Prop where
  listed : ∀ key src, pick key = some src →
    ∃ v ∈ rows, toLowerCase v.pubkey = key ∧ v.source = some src
  absent : ∀ key, pick key = none → ∀ v ∈ rows, toLowerCase v.pubkey ≠ key

def resolved (toLowerCase : String → String) (pick : String → Option String)
    (signers : List String) : Finset String :=
  ((signers.map toLowerCase).filterMap pick).toFinset

theorem key_source_resolves (toLowerCase : String → String) {rows : List Row} {w : String → ℚ}
    (valid : WellFormed rows w) :
    Resolves toLowerCase rows (fun key => keySource toLowerCase key rows) := by
  refine ⟨fun key src found => key_source_row found, ?_⟩
  induction rows with
  | nil => simp
  | cons v rows ih =>
    intro key missing u member same
    simp only [keySource, Option.or_eq_none_iff] at missing
    rcases List.mem_cons.mp member with rfl | later
    · obtain ⟨src, source, -⟩ := valid.sourced u List.mem_cons_self
      simp [same, source] at missing
    · exact ih valid.tail key missing.1 u later same

theorem key_source_append (key : String) (front back : List Row) :
    keySource toLowerCase key (front ++ back) =
      (keySource toLowerCase key back).or (keySource toLowerCase key front) := by
  induction front with
  | nil => simp [keySource]
  | cons v front ih => simp only [List.cons_append, keySource, ih, Option.or_assoc]

theorem key_source_constant {key src : String} {rows : List Row}
    (all : ∀ v ∈ rows, toLowerCase v.pubkey = key → v.source = some src)
    (some_row : ∃ v ∈ rows, toLowerCase v.pubkey = key) :
    keySource toLowerCase key rows = some src := by
  induction rows with
  | nil => simp at some_row
  | cons v rows ih =>
    simp only [keySource]
    by_cases later : ∃ u ∈ rows, toLowerCase u.pubkey = key
    · rw [ih (fun u member => all u (List.mem_cons_of_mem v member)) later, Option.some_or]
    · obtain ⟨u, member, same⟩ := some_row
      rcases List.mem_cons.mp member with rfl | tail
      · rw [if_pos same, all u List.mem_cons_self same]
        cases found : keySource toLowerCase key rows with
        | none => rfl
        | some other =>
          obtain ⟨v, inRows, key_eq, -⟩ := key_source_row found
          exact absurd ⟨v, inRows, key_eq⟩ later
      · exact absurd ⟨u, tail, same⟩ later

/-- Every way of sending each key to one of its sources is the key map of some row order. -/
theorem resolver_has_order {rows : List Row} {pick : String → Option String}
    (resolves : Resolves toLowerCase rows pick) :
    ∃ other : List Row, other.Perm rows ∧ ∀ key, keySource toLowerCase key other = pick key := by
  let chosen : Row → Bool := fun v => v.source = pick (toLowerCase v.pubkey)
  refine ⟨rows.filter (fun v => !chosen v) ++ rows.filter chosen, ?_, ?_⟩
  · exact List.perm_append_comm.trans (List.filter_append_perm chosen rows)
  · intro key
    rw [key_source_append]
    cases target : pick key with
    | some src =>
      obtain ⟨v, member, same, source⟩ := resolves.listed key src target
      have front : ∀ u ∈ rows.filter chosen, toLowerCase u.pubkey = key → u.source = some src := by
        intro u inChosen key_eq
        have kept := (List.mem_filter.mp inChosen).2
        simp only [chosen, decide_eq_true_eq, key_eq, target] at kept
        exact kept
      have kept : v ∈ rows.filter chosen :=
        List.mem_filter.mpr ⟨member, by simp [chosen, same, source, target]⟩
      rw [key_source_constant front ⟨v, kept, same⟩, Option.some_or]
    | none =>
      have nowhere : ∀ part : List Row, part ⊆ rows → keySource toLowerCase key part = none := by
        intro part sub
        cases found : keySource toLowerCase key part with
        | none => rfl
        | some src =>
          obtain ⟨v, member, same, -⟩ := key_source_row found
          exact absurd same (resolves.absent key target v (sub member))
      rw [nowhere _ List.filter_sublist.subset, nowhere _ List.filter_sublist.subset,
        Option.none_or]

/- The threshold as documented: the stake of every distinct source some signer
   holds a key of, against two thirds of the stake of all sources. -/
def MeetsDefinition (toLowerCase : String → String) (rows : List Row) (w : String → ℚ)
    (signers : List String) : Prop :=
  0 < total w (sources rows) ∧
    2 * total w (sources rows) < 3 * total w (signed toLowerCase rows signers)

instance (toLowerCase : String → String) (rows : List Row) (w : String → ℚ)
    (signers : List String) : Decidable (MeetsDefinition toLowerCase rows w signers) :=
  inferInstanceAs (Decidable (_ ∧ _))

theorem verdict_iff_definition {rows : List Row} {w : String → ℚ} (valid : WellFormed rows w)
    (signers : List String) :
    (meetsStakeThreshold toLowerCase ⟨rows, false⟩ signers = true ↔
      MeetsDefinition toLowerCase rows w signers) ↔
    (MeetsDefinition toLowerCase rows w signers → 2 * total w (sources rows) <
      3 * (total w (signed toLowerCase rows signers) -
        total w (shadowed toLowerCase rows signers))) := by
  rw [meets_stake_iff_counted valid, counted_total]
  have hidden := total_nonneg valid (Finset.Subset.trans
    (shadowed_subset_signed toLowerCase rows signers)
    (signed_subset_sources rows signers))
  constructor
  · intro same holds
    exact (same.mpr holds).2
  · intro enough
    exact ⟨fun verdict => ⟨verdict.1, by linarith [verdict.2]⟩,
      fun holds => ⟨holds.1, enough holds⟩⟩

theorem verdict_iff_definition_every_order {rows : List Row} {w : String → ℚ}
    (valid : WellFormed rows w) (signers : List String) :
    (∀ other : List Row, other.Perm rows →
      (meetsStakeThreshold toLowerCase ⟨other, false⟩ signers = true ↔
        MeetsDefinition toLowerCase rows w signers)) ↔
    (MeetsDefinition toLowerCase rows w signers → ∀ pick, Resolves toLowerCase rows pick →
      2 * total w (sources rows) < 3 * total w (resolved toLowerCase pick signers)) := by
  constructor
  · intro every holds pick resolves
    obtain ⟨other, perm, order⟩ := resolver_has_order resolves
    have verdict := (meets_stake_iff_counted (valid.perm perm) signers).mp
      ((every other perm).mpr holds)
    rw [sources_perm perm] at verdict
    have same : counted toLowerCase other signers = resolved toLowerCase pick signers := by
      simp only [counted, resolved, order]
    rw [← same]
    exact verdict.2
  · intro enough other perm
    have order := valid.perm perm
    have below : total w (counted toLowerCase other signers) ≤
        total w (signed toLowerCase rows signers) := by
      rw [← signed_perm perm, counted_eq_signed_sdiff]
      exact total_monotone order Finset.sdiff_subset (signed_subset_sources other signers)
    rw [meets_stake_iff_counted order, sources_perm perm]
    refine ⟨fun verdict => ⟨verdict.1, by linarith [verdict.2]⟩, fun holds => ⟨holds.1, ?_⟩⟩
    have resolves := key_source_resolves toLowerCase order
    exact enough holds _
      ⟨fun key src found => by simpa only [perm.mem_iff] using resolves.listed key src found,
        fun key missing v member => resolves.absent key missing v (perm.mem_iff.mpr member)⟩

theorem verdict_monotone {rows : List Row} {w : String → ℚ} (valid : WellFormed rows w)
    {signers more : List String} (sub : signers ⊆ more)
    (verdict : meetsStakeThreshold toLowerCase ⟨rows, false⟩ signers = true) :
    meetsStakeThreshold toLowerCase ⟨rows, false⟩ more = true := by
  rw [meets_stake_iff_counted valid] at verdict ⊢
  have grows := total_monotone valid (counted_monotone toLowerCase rows sub)
    (counted_subset_sources toLowerCase rows more)
  exact ⟨verdict.1, by linarith [verdict.2]⟩

/- Every key of the index resolves to an indexed source, and only listed keys do. -/
structure Linked (toLowerCase : String → String) (listed : String → Prop) (index : StakeIndex) :
    Prop where
  sources : ∀ key src, index.pubkeyToSource.lookup key = some src → src ∈ index.weightBySource
  keys : ∀ key src, index.pubkeyToSource.lookup key = some src → listed key

theorem add_row_linked {listed : String → Prop} {v : Row} {before after : StakeIndex}
    (linked : Linked toLowerCase listed before) (row : listed (toLowerCase v.pubkey))
    (built : before.addRow toLowerCase v = some after) : Linked toLowerCase listed after := by
  have resolves : ∀ src key other, (before.pubkeyToSource.insert (toLowerCase v.pubkey)
      src).lookup key = some other →
      (key = toLowerCase v.pubkey ∧ other = src) ∨
        before.pubkeyToSource.lookup key = some other := by
    intro src key other found
    by_cases same : key = toLowerCase v.pubkey
    · subst same
      rw [AList.lookup_insert, Option.some.injEq] at found
      exact Or.inl ⟨rfl, found.symm⟩
    · rw [AList.lookup_insert_ne same] at found
      exact Or.inr found
  simp only [StakeIndex.addRow] at built
  cases source : v.source with
  | none => simp [source] at built
  | some src =>
    simp only [source] at built
    split at built
    · simp at built
    · split at built
      · rename_i known
        rw [← Option.some.inj built]
        refine ⟨fun key other found => ?_, fun key other found => ?_⟩
        · rcases resolves src key other found with ⟨-, rfl⟩ | old
          · exact known
          · exact linked.sources key other old
        · rcases resolves src key other found with ⟨rfl, -⟩ | old
          · exact row
          · exact linked.keys key other old
      · cases weight : v.weight with
        | none => simp [weight] at built
        | some w =>
          simp only [weight] at built
          split at built
          · rw [← Option.some.inj built]
            refine ⟨fun key other found => ?_, fun key other found => ?_⟩
            · rcases resolves src key other found with ⟨-, rfl⟩ | old
              · exact (AList.mem_insert _).mpr (Or.inl rfl)
              · exact (AList.mem_insert _).mpr (Or.inr (linked.sources key other old))
            · rcases resolves src key other found with ⟨rfl, -⟩ | old
              · exact row
              · exact linked.keys key other old
          · simp at built

theorem index_from_linked {listed : String → Prop} {rows : List Row} {before after : StakeIndex}
    (linked : Linked toLowerCase listed before)
    (all : ∀ v ∈ rows, listed (toLowerCase v.pubkey))
    (built : indexFrom toLowerCase before rows = some after) :
    Linked toLowerCase listed after := by
  induction rows generalizing before with
  | nil =>
    rw [← Option.some.inj built]
    exact linked
  | cons v rows ih =>
    obtain ⟨middle, first, rest⟩ := Option.bind_eq_some_iff.mp built
    exact ih (add_row_linked linked (all v List.mem_cons_self) first)
      (fun u member => all u (List.mem_cons_of_mem v member)) rest

/-- More signers never lose a verdict, and a signer no row lists adds nothing to one.
    Unlike `verdict_monotone` this needs no well-formed snapshot. -/
theorem verdict_extends {validators : Snapshot} {signers more : List String}
    (listed : ∀ pk ∈ signers,
      (∃ v ∈ validators.rows, toLowerCase v.pubkey = toLowerCase pk) → pk ∈ more)
    (met : meetsStakeThreshold toLowerCase validators signers = true) :
    meetsStakeThreshold toLowerCase validators more = true := by
  simp only [meetsStakeThreshold] at met ⊢
  split at met
  · simp at met
  · rename_i whole
    simp only [whole, Bool.false_eq_true, if_false]
    cases built : indexStakeSources toLowerCase validators.rows with
    | none => simp [built] at met
    | some index =>
      simp only [built] at met ⊢
      cases stake : sumStakeWeights index.weightBySource with
      | none => simp [stake] at met
      | some S =>
        simp only [stake, decide_eq_true_eq] at met
        let w : String → ℚ := fun src => bcnum ((index.weightBySource.lookup src).getD "0")
        have known : Weighted w index.weightBySource := by
          intro src t found
          simp [w, found]
        have linked : Linked toLowerCase
            (fun key => ∃ v ∈ validators.rows, toLowerCase v.pubkey = key) index := by
          refine index_from_linked ?_ (fun v member => ⟨v, member, rfl⟩) built
          exact ⟨fun key src found => by simp [StakeIndex.empty] at found,
            fun key src found => by simp [StakeIndex.empty] at found⟩
        have few := tally_signers_tally toLowerCase known linked.sources signers
        have many := tally_signers_tally toLowerCase known linked.sources more
        have grown : (tallySigners toLowerCase index signers).countedSources ⊆
            (tallySigners toLowerCase index more).countedSources := by
          intro src member
          obtain ⟨pk, signer, resolved⟩ := (few.counted src).mp member
          exact (many.counted src).mpr ⟨pk, listed pk signer (linked.keys _ _ resolved), resolved⟩
        have nonneg : ∀ src ∈ (tallySigners toLowerCase index more).countedSources,
            0 ≤ w src := by
          intro src member
          obtain ⟨pk, -, resolved⟩ := (many.counted src).mp member
          obtain ⟨text, found⟩ := Option.isSome_iff_exists.mp
            (AList.lookup_isSome.mpr (linked.sources _ _ resolved))
          have entry : bcnum text ∈ weights index.weightBySource :=
            List.mem_map.mpr ⟨⟨src, text⟩, AList.mem_lookup_iff.mp found, rfl⟩
          simp only [sumStakeWeights] at stake
          split at stake
          · simp at stake
          · rename_i sign
            simp only [List.any_eq_true, decide_eq_true_eq, not_exists, not_and, not_lt] at sign
            simpa [w, found] using sign _ entry
        have order : (tallySigners toLowerCase index signers).tally ≤
            (tallySigners toLowerCase index more).tally := by
          rw [few.sum, many.sum]
          exact Finset.sum_le_sum_of_subset_of_nonneg grown
            (fun src member _ => nonneg src member)
        simp only [sumSignerStake] at met ⊢
        exact decide_eq_true (by linarith)

theorem passing_lists_share_stake {rows : List Row} {w : String → ℚ} (valid : WellFormed rows w)
    {signers others : List String}
    (first : meetsStakeThreshold toLowerCase ⟨rows, false⟩ signers = true)
    (second : meetsStakeThreshold toLowerCase ⟨rows, false⟩ others = true) :
    total w (sources rows) <
      3 * total w (signed toLowerCase rows signers ∩ signed toLowerCase rows others) := by
  rw [meets_stake_iff_counted valid] at first second
  have overlap := weight_overlap w (fun _ member => valid.source_nonneg member)
    (counted_subset_sources toLowerCase rows signers)
    (counted_subset_sources toLowerCase rows others)
  have inside : ∀ list, counted toLowerCase rows list ⊆ signed toLowerCase rows list := by
    intro list
    rw [counted_eq_signed_sdiff]
    exact Finset.sdiff_subset
  have grows := total_monotone valid (Finset.inter_subset_inter (inside signers) (inside others))
    (Finset.Subset.trans Finset.inter_subset_left (signed_subset_sources rows signers))
  simp only [total] at first second grows ⊢
  linarith [first.2, second.2]

/-- The stake verdict against its definition. Rows in a given order agree with the
    definition unless the sources hidden behind a later row of the same key carry
    it over two thirds; every order agrees when any single source of each signing
    key suffices. Signer order, growth and overlap need no such condition. -/
theorem stake_threshold_definition (toLowerCase : String → String) {rows : List Row}
    {w : String → ℚ} (valid : WellFormed rows w) (signers : List String) :
    ((meetsStakeThreshold toLowerCase ⟨rows, false⟩ signers = true ↔
      MeetsDefinition toLowerCase rows w signers) ↔
      (MeetsDefinition toLowerCase rows w signers → 2 * total w (sources rows) <
        3 * (total w (signed toLowerCase rows signers) -
          total w (shadowed toLowerCase rows signers)))) ∧
    ((∀ other : List Row, other.Perm rows →
      (meetsStakeThreshold toLowerCase ⟨other, false⟩ signers = true ↔
        MeetsDefinition toLowerCase rows w signers)) ↔
      (MeetsDefinition toLowerCase rows w signers → ∀ pick, Resolves toLowerCase rows pick →
        2 * total w (sources rows) < 3 * total w (resolved toLowerCase pick signers))) ∧
    (∀ others : List String, others.Perm signers →
      meetsStakeThreshold toLowerCase ⟨rows, false⟩ others =
        meetsStakeThreshold toLowerCase ⟨rows, false⟩ signers) ∧
    (∀ more : List String, signers ⊆ more →
      meetsStakeThreshold toLowerCase ⟨rows, false⟩ signers = true →
        meetsStakeThreshold toLowerCase ⟨rows, false⟩ more = true) ∧
    (∀ others : List String, meetsStakeThreshold toLowerCase ⟨rows, false⟩ signers = true →
      meetsStakeThreshold toLowerCase ⟨rows, false⟩ others = true →
        total w (sources rows) <
          3 * total w (signed toLowerCase rows signers ∩ signed toLowerCase rows others)) := by
  refine ⟨verdict_iff_definition valid signers, verdict_iff_definition_every_order valid signers,
    ?_, fun more sub => verdict_monotone valid sub,
    fun others first second => passing_lists_share_stake valid first second⟩
  intro others perm
  rw [Bool.eq_iff_iff]
  exact ⟨verdict_monotone valid perm.subset, verdict_monotone valid perm.symm.subset⟩

end Tally

/- toLowerCase on the hexadecimal text of real keys. -/
def asciiLower (s : String) : String := String.ofList (s.toList.map Char.toLower)

theorem to_lower_idem (c : Char) : c.toLower.toLower = c.toLower := by
  by_cases upper : c.val ≥ 'A'.val ∧ c.val ≤ 'Z'.val
  · have shifted : c.toLower.val = c.val + ('a'.val - 'A'.val) := by
      delta Char.toLower
      rw [dif_pos upper]
    have above : ¬ c.toLower.val ≤ 'Z'.val := by
      rw [shifted]
      obtain ⟨low, high⟩ := upper
      simp only [UInt32.le_iff_toNat_le, ge_iff_le, UInt32.toNat_add] at *
      have e : ('a'.val - 'A'.val).toNat = 32 := by decide
      have l : 'A'.val.toNat = 65 := by decide
      have h : 'Z'.val.toNat = 90 := by decide
      omega
    delta Char.toLower at above ⊢
    rw [dif_neg (fun both => above both.2)]
  · have same : c.toLower = c := by
      delta Char.toLower
      rw [dif_neg upper]
    rw [same, same]

theorem ascii_lower_idem (s : String) : asciiLower (asciiLower s) = asciiLower s := by
  have chars : ∀ c ∈ s.toList, (Char.toLower ∘ Char.toLower) c = c.toLower :=
    fun c _ => to_lower_idem c
  rw [asciiLower, asciiLower, String.toList_ofList, List.map_map, List.map_congr_left chars]

/- One key delegated by two sources, the heavier one listed first. -/
def delegatedTwice : List Row := [⟨"k1", some "A", some "3"⟩, ⟨"k1", some "B", some "1"⟩]

def delegatedWeight (src : String) : ℚ := if src = "A" then 3 else 1

theorem delegated_twice_well_formed : WellFormed delegatedTwice delegatedWeight := by
  refine ⟨?_, ?_, ?_⟩
  · intro v member
    fin_cases member
    · exact ⟨"A", rfl, by decide⟩
    · exact ⟨"B", rfl, by decide⟩
  · intro v member src source
    fin_cases member <;> cases source
    · exact ⟨"3", rfl, by decide⟩
    · exact ⟨"1", rfl, by decide⟩
  · intro v member src source
    fin_cases member <;> cases source <;> decide

/-- Both sources signed through their shared key and hold the whole stake, yet the
    verdict is false; with the two rows exchanged it is true. -/
theorem shared_key_splits_verdict :
    WellFormed delegatedTwice delegatedWeight ∧
    MeetsDefinition asciiLower delegatedTwice delegatedWeight ["K1"] ∧
    meetsStakeThreshold asciiLower ⟨delegatedTwice, false⟩ ["K1"] = false ∧
    meetsStakeThreshold asciiLower ⟨delegatedTwice.reverse, false⟩ ["K1"] = true := by
  refine ⟨delegated_twice_well_formed, ?_, ?_, ?_⟩
  · decide +kernel
  · decide +kernel
  · decide +kernel

theorem delegated_twice_verdict :
    WellFormed delegatedTwice delegatedWeight ∧
    ∀ more : List String, ["K1"] ⊆ more →
      meetsStakeThreshold asciiLower ⟨delegatedTwice, false⟩ ["K1"] = true →
        meetsStakeThreshold asciiLower ⟨delegatedTwice, false⟩ more = true := by
  refine ⟨delegated_twice_well_formed, ?_⟩
  obtain ⟨-, -, -, grows, -⟩ :=
    stake_threshold_definition asciiLower delegated_twice_well_formed ["K1"]
  exact grows

end XChainHub.StakeWeightedQuorum
