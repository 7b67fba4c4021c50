import XChainHub.Library.BinaryRounding
import XChainHub.Validators.StakeShare.LoseOne

/-!
The stake margin of validators/stake_share: levels.js, evaluate.js and margin.js. Bignumber
arithmetic is exact and fmt is the exact decimal text; the reasons and the captions of a reading
are left out, and the ratio's toNumber() is left out of the exact quotient.
-/
namespace XChainHub.StakeShare
open DecimalText DecimalRounding BinaryRounding StakeWeightedQuorum

section Decimals

/- A finite decimal. -/
def Decimal (q : ℚ) : Prop := ∃ places, OnGrid places q

theorem Decimal.add {a b : ℚ} (left : Decimal a) (right : Decimal b) : Decimal (a + b) := by
  obtain ⟨few, left⟩ := left
  obtain ⟨many, right⟩ := right
  exact ⟨max few many, (left.finer (le_max_left few many)).add (right.finer (le_max_right few many))⟩

theorem decimal_zero : Decimal 0 := ⟨0, on_grid_zero 0⟩

theorem decimal_sum {qs : List ℚ} (decimals : ∀ q ∈ qs, Decimal q) : Decimal qs.sum := by
  induction qs with
  | nil => exact decimal_zero
  | cons q qs ih =>
    rw [List.sum_cons]
    exact (decimals q List.mem_cons_self).add
      (ih fun other member => decimals other (List.mem_cons_of_mem q member))

theorem Decimal.natMul {q : ℚ} (decimal : Decimal q) (k : ℕ) : Decimal (k * q) := by
  obtain ⟨places, n, rfl⟩ := decimal
  refine ⟨places, k * n, ?_⟩
  push_cast
  ring

theorem Decimal.neg {q : ℚ} (decimal : Decimal q) : Decimal (-q) := by
  obtain ⟨places, n, rfl⟩ := decimal
  refine ⟨places, -n, ?_⟩
  push_cast
  ring

theorem unsigned_value_decimal {cs : List Char} {q : ℚ} (parsed : unsignedValue cs = some q) :
    Decimal q := by
  simp only [unsignedValue] at parsed
  split at parsed
  · split at parsed
    · cases parsed
    · cases parsed
      exact ⟨0, digitsValue (cs.takeWhile Char.isDigit), by simp⟩
  · rename_i frac _
    split at parsed
    · cases parsed
      refine ⟨frac.length, digitsValue (cs.takeWhile Char.isDigit) * 10 ^ frac.length +
        digitsValue frac, ?_⟩
      push_cast
      field_simp
    · cases parsed
  · cases parsed

theorem bcnum_decimal (v : String) : Decimal (bcnum v) := by
  unfold bcnum
  cases parsed : signedValue (trim v.toList) with
  | none => exact decimal_zero
  | some q =>
    rw [Option.getD_some]
    unfold signedValue at parsed
    split at parsed
    · exact unsigned_value_decimal parsed
    · obtain ⟨p, unsigned, rfl⟩ := Option.map_eq_some_iff.mp parsed
      exact (unsigned_value_decimal unsigned).neg
    · exact unsigned_value_decimal parsed

/-- The text of a decimal of either sign reads back as the decimal. -/
theorem bcnum_text {q : ℚ} (decimal : Decimal q) : bcnum (plainText q) = q := by
  obtain ⟨places, n, shape⟩ := decimal
  by_cases sign : 0 ≤ q
  · rw [bcnum, plain_text_value shape sign, Option.getD_some]
  · have negative : -q = (-n : ℤ) / 10 ^ places := by
      rw [shape]
      push_cast
      ring
    have solid : ∀ c ∈ '-' :: unsignedText (-q), isSpace c = false := by
      intro c member
      rcases List.mem_cons.mp member with rfl | digit
      · decide
      · rcases unsigned_text_chars (-q) c digit with digit | rfl
        · exact digit_not_space digit
        · decide
    rw [bcnum, plainText, if_pos (not_le.mp sign), String.toList_ofList, trim_of_no_space solid]
    simp only [signedValue]
    rw [unsigned_text_value negative (by linarith), Option.map_some, neg_neg, Option.getD_some]

end Decimals

section Levels

inductive Level where
  | ok
  | unconfigured
  | warning
  | critical
  | halted
  | blocked
  deriving DecidableEq

/- The WARNING and CRITICAL margins, in new stakes. -/
structure Bands where
  warnAt : ℤ
  criticalAt : ℤ
  deriving DecidableEq

/- What is not an integer is none. -/
def marginBand (asked : Option ℤ) (fallback : ℤ) : ℤ :=
  match asked with
  | some n => if 0 < n then n else fallback
  | none => fallback

def marginBands (warnAtStakes criticalAtStakes : Option ℤ) : Bands :=
  ⟨marginBand warnAtStakes 2, marginBand criticalAtStakes 1⟩

/- The configured list: an array, where null and undefined are none, or one text. -/
inductive OperatorSources where
  | list (items : List (Option String))
  | text (line : String)
  | unset

def trimmed (s : String) : String := String.ofList (trim s.toList)

def sourceTexts : OperatorSources → List String
  | .list items => items.reduceOption
  | .text line => (line.toList.splitOnP fun c => c = ',' || isSpace c).map String.ofList
  | .unset => []

/- Blanks are dropped and duplicates collapse. -/
def normalizeSources (sources : OperatorSources) : List String :=
  (((sourceTexts sources).map trimmed).filter (· ≠ "")).eraseDups

end Levels

section Margin

/- A count as a Number. -/
inductive StakeCount where
  | finite (n : ℚ)
  | infinite
  deriving DecidableEq

def StakeCount.Exceeds (c : StakeCount) (k : ℕ) : Prop :=
  match c with
  | .finite n => (k : ℚ) < n
  | .infinite => True

instance (c : StakeCount) (k : ℕ) : Decidable (c.Exceeds k) :=
  match c with
  | .finite n => inferInstanceAs (Decidable ((k : ℚ) < n))
  | .infinite => inferInstanceAs (Decidable True)

def StakeCount.atMost (c : StakeCount) (band : ℤ) : Bool :=
  match c with
  | .finite n => n ≤ band
  | .infinite => false

/- Number() of the text of a whole number: from half a unit over the largest double on it is
   Infinity. -/
def numberOf (n : ℤ) : StakeCount :=
  if 2 ^ 1024 - 2 ^ 970 ≤ n then .infinite else .finite (toDouble n)

structure GateMargin where
  level : Level
  meetsGate : Bool
  headroom : String
  stakesToHalt : Option StakeCount
  deriving DecidableEq

/- The largest further third-party stake that leaves the gate reachable. -/
def headroomOf (ours total : ℚ) : ℚ := (3 * ours - 2 * total) / 2

/- The stakes of one unit that close the headroom. -/
def stakesNeeded (ours total unit : ℚ) : ℤ := ⌈headroomOf ours total / unit⌉

def marginLevel (meetsGate : Bool) (stakesToHalt : Option StakeCount) (bands : Bands) : Level :=
  if !meetsGate then .halted
  else
    match stakesToHalt with
    | none => .ok
    | some n =>
      if n.atMost bands.criticalAt then .critical
      else if n.atMost bands.warnAt then .warning else .ok

def classifyMargin (ours total : ℚ) (unit : Option ℚ) (bands : Bands) : GateMargin :=
  let meetsGate : Bool := 2 * total < 3 * ours
  let stakesToHalt := if !meetsGate then some (.finite 0)
    else unit.map fun u => numberOf (stakesNeeded ours total u)
  ⟨marginLevel meetsGate stakesToHalt bands, meetsGate, plainText (headroomOf ours total),
    stakesToHalt⟩

end Margin

section Evaluate

inductive UnitFrom where
  | minStake
  | largestOtherSource
  | largestSource
  deriving DecidableEq

structure Evaluation where
  level : Level
  totalStake : Option String
  operatorStake : Option String
  otherStake : Option String
  shareRatio : Option ℚ
  sourceCount : Option ℕ
  operatorSourceCount : ℕ
  configuredSourceCount : ℕ
  unmatchedOperatorSources : List String
  meetsGate : Option Bool
  headroom : Option String
  unitStake : Option String
  unitStakeFrom : Option UnitFrom
  stakesToHalt : Option StakeCount
  deriving DecidableEq

def emptyResult (level : Level) : Evaluation :=
  ⟨level, none, none, none, none, none, 0, 0, [], none, none, none, none, none⟩

def matchedSources (bySource : OrderedMap String ℚ) (configured : List String) : List String :=
  configured.filter bySource.has

def operatorStakeOf (bySource : OrderedMap String ℚ) (configured : List String) : ℚ :=
  ((matchedSources bySource configured).map fun src => (bySource.get src).getD 0).sum

/- The largest of the weights above zero. -/
def heaviest (largest : Option ℚ) (w : ℚ) : Option ℚ :=
  if w ≤ 0 then largest
  else
    match largest with
    | none => some w
    | some kept => if kept < w then some w else some kept

/- A text of digits, with a point after the first or none. -/
def amountOf (text : String) : Option ℚ :=
  let cs := trim text.toList
  if (cs.head?).any Char.isDigit then unsignedValue cs else none

/- The floor that the MIN_STAKE sets. -/
def configuredUnit (minStake : Option String) : Option (ℚ × UnitFrom) :=
  ((minStake.bind amountOf).filter fun q => 0 < q).map fun q => (q, .minStake)

def observedUnit (bySource : OrderedMap String ℚ) (matched : List String) : Option (ℚ × UnitFrom) :=
  let others := bySource.entries.filter fun e => e.1 ∉ matched
  match (others.map Prod.snd).foldl heaviest none with
  | some w => some (w, .largestOtherSource)
  | none => ((bySource.entries.map Prod.snd).foldl heaviest none).map fun w => (w, .largestSource)

def sizeStakeUnit (bySource : OrderedMap String ℚ) (matched : List String)
    (minStake : Option String) : Option (ℚ × UnitFrom) :=
  match observedUnit bySource matched, configuredUnit minStake with
  | none, floor => floor
  | some seen, none => some seen
  | some seen, some floor => if floor.1 < seen.1 then some seen else some floor

def evaluateStakeShare (validators : Snapshot) (operatorSources : OperatorSources)
    (minStake : Option String) (bands : Bands) : Evaluation :=
  let configured := normalizeSources operatorSources
  if configured = [] then emptyResult .unconfigured
  else
    match totalStake validators with
    | .error _ => { emptyResult .blocked with configuredSourceCount := configured.length }
    | .ok S =>
      if S ≤ 0 then
        { emptyResult .blocked with
          configuredSourceCount := configured.length
          totalStake := some (plainText S)
          sourceCount := some 0 }
      else
        let bySource := weightsBySource validators.rows
        let matched := matchedSources bySource configured
        let unmatched := configured.filter fun src => !bySource.has src
        if matched = [] then
          { emptyResult .unconfigured with
            configuredSourceCount := configured.length
            unmatchedOperatorSources := unmatched
            totalStake := some (plainText S)
            sourceCount := some bySource.size
            operatorStake := some "0"
            otherStake := some (plainText S)
            shareRatio := some 0 }
        else
          let ours := operatorStakeOf bySource configured
          let unit := sizeStakeUnit bySource matched minStake
          let margin := classifyMargin ours S (unit.map Prod.fst) bands
          { level := margin.level
            totalStake := some (plainText S)
            operatorStake := some (plainText ours)
            otherStake := some (plainText (S - ours))
            shareRatio := some (ours / S)
            sourceCount := some bySource.size
            operatorSourceCount := matched.length
            configuredSourceCount := configured.length
            unmatchedOperatorSources := unmatched
            meetsGate := some margin.meetsGate
            headroom := some margin.headroom
            unitStake := unit.map fun u => plainText u.1
            unitStakeFrom := unit.map Prod.snd
            stakesToHalt := margin.stakesToHalt }

structure Projection where
  addedStake : String
  totalStake : String
  operatorStake : String
  shareRatio : Option ℚ
  margin : GateMargin
  deriving DecidableEq

def projectCompetingStake (evaluation : Evaluation) (amount : String) (bands : Bands) :
    Option Projection :=
  match evaluation.totalStake, evaluation.operatorStake, amountOf amount with
  | some totalText, some oursText, some more =>
    let ours := bcnum oursText
    let total := bcnum totalText + more
    some {
      addedStake := trimmed amount
      totalStake := plainText total
      operatorStake := plainText ours
      shareRatio := if total ≤ 0 then none else some (ours / total)
      margin := classifyMargin ours total (evaluation.unitStake.map bcnum) bands }
  | _, _, _ => none

end Evaluate

section Exactness

/-- A whole number is rounded to a whole number. -/
theorem double_whole (n : ℤ) : ∃ z : ℤ, toDouble n = z := by
  rcases le_total (lastBit n) 0 with fine | high
  · exact ⟨n, double_of_fine fine⟩
  · obtain ⟨bits, same⟩ := Int.eq_ofNat_of_zero_le high
    unfold toDouble
    split
    · exact ⟨0, by simp⟩
    · refine ⟨halfEven (n / 2 ^ lastBit n) * 2 ^ bits, ?_⟩
      rw [same, zpow_natCast]
      push_cast
      rfl

theorem exceeds_iff {n : ℤ} (positive : 0 < n) :
    (∀ k : ℕ, (numberOf n).Exceeds k ↔ (k : ℤ) < n) ↔ numberOf n = .finite n := by
  constructor
  · intro every
    obtain ⟨count, whole⟩ := Int.eq_ofNat_of_zero_le positive.le
    unfold numberOf at every ⊢
    split
    · rename_i large
      rw [if_pos large] at every
      have beyond := (every count).mp trivial
      omega
    · rename_i small
      obtain ⟨z, rounded⟩ := double_whole n
      simp only [if_neg small, rounded, StakeCount.Exceeds] at every ⊢
      rw [StakeCount.finite.injEq]
      have most : z ≤ n := by
        have at_n : ¬ ((count : ℚ) < z) := fun more => by have := (every count).mp more; omega
        have cast : ¬ ((count : ℤ) < z) := fun more => at_n (by exact_mod_cast more)
        omega
      have least : n ≤ z := by
        have before := (every (count - 1)).mpr (by omega)
        have cast : ((count - 1 : ℕ) : ℤ) < z := by exact_mod_cast before
        omega
      rw [le_antisymm most least]
  · intro exact_ k
    rw [exact_, StakeCount.Exceeds]
    exact_mod_cast Iff.rfl

/-- Further stakes of one unit keep the gate exactly while they are fewer than are needed. -/
theorem gate_kept_iff {ours total unit : ℚ} (positive : 0 < unit) (k : ℕ) :
    2 * (total + k * unit) < 3 * ours ↔ (k : ℤ) < stakesNeeded ours total unit := by
  rw [stakesNeeded, Int.lt_ceil, lt_div_iff₀ positive, headroomOf]
  push_cast
  constructor
  · intro kept
    linarith
  · intro kept
    linarith

theorem stakes_needed_pos {ours total unit : ℚ} (positive : 0 < unit) :
    0 < stakesNeeded ours total unit ↔ 2 * total < 3 * ours := by
  have kept := @gate_kept_iff ours total unit positive 0
  simp only [Nat.cast_zero, zero_mul, add_zero] at kept
  exact kept.symm

end Exactness

section Reading

theorem weights_decimal (rows : List Row) : ∀ e ∈ (weightsBySource rows).entries, Decimal e.2 := by
  have step : ∀ (rows : List Row) (m : OrderedMap String ℚ), (∀ e ∈ m.entries, Decimal e.2) →
      ∀ e ∈ (rows.foldl weighRow m).entries, Decimal e.2 := by
    intro rows
    induction rows with
    | nil => exact fun m kept => kept
    | cons v rows ih =>
      intro m kept
      apply ih
      unfold weighRow
      split
      · exact kept
      · rename_i absent
        rw [set_absent_entries absent]
        intro e member
        rcases List.mem_append.mp member with old | new
        · exact kept e old
        · rw [List.mem_singleton.mp new]
          exact bcnum_decimal _
  exact step rows OrderedMap.empty fun e member => absurd member List.not_mem_nil

theorem heaviest_found {ws : List ℚ} {w : ℚ} (found : ws.foldl heaviest none = some w) :
    w ∈ ws ∧ 0 < w := by
  have step : ∀ (ws : List ℚ) (largest : Option ℚ), (∀ q ∈ largest, 0 < q) →
      ∀ q ∈ ws.foldl heaviest largest, 0 < q ∧ (q ∈ ws ∨ q ∈ largest) := by
    intro ws
    induction ws with
    | nil => exact fun largest kept q member => ⟨kept q member, Or.inr member⟩
    | cons v ws ih =>
      intro largest kept q member
      have next : ∀ p ∈ heaviest largest v, 0 < p ∧ (p = v ∨ p ∈ largest) := by
        intro p inside
        unfold heaviest at inside
        split at inside
        · exact ⟨kept p inside, Or.inr inside⟩
        · rename_i above
          split at inside
          · cases inside
            exact ⟨not_le.mp above, Or.inl rfl⟩
          · split at inside
            · cases inside
              exact ⟨not_le.mp above, Or.inl rfl⟩
            · exact ⟨kept p inside, Or.inr inside⟩
      obtain ⟨positive, inside⟩ := ih (heaviest largest v) (fun p held => (next p held).1) q member
      refine ⟨positive, ?_⟩
      rcases inside with later | front
      · exact Or.inl (List.mem_cons_of_mem v later)
      · rcases (next q front).2 with rfl | old
        · exact Or.inl List.mem_cons_self
        · exact Or.inr old
  obtain ⟨positive, inside⟩ := step ws none (by simp) w found
  exact ⟨inside.resolve_right (by simp), positive⟩

/- A unit is a decimal above zero. -/
def UnitSound (u : ℚ × UnitFrom) : Prop := 0 < u.1 ∧ Decimal u.1

theorem observed_sound {rows : List Row} {matched : List String} {u : ℚ × UnitFrom}
    (seen : observedUnit (weightsBySource rows) matched = some u) : UnitSound u := by
  have sound : ∀ (es : List (String × ℚ)), (∀ e ∈ es, e ∈ (weightsBySource rows).entries) →
      ∀ w, (es.map Prod.snd).foldl heaviest none = some w → 0 < w ∧ Decimal w := by
    intro es inside w found
    obtain ⟨member, positive⟩ := heaviest_found found
    obtain ⟨e, listed, rfl⟩ := List.mem_map.mp member
    exact ⟨positive, weights_decimal rows e (inside e listed)⟩
  simp only [observedUnit] at seen
  split at seen
  · rename_i w found
    cases seen
    exact sound _ (fun e member => List.mem_of_mem_filter member) w found
  · obtain ⟨w, found, rfl⟩ := Option.map_eq_some_iff.mp seen
    exact sound _ (fun e member => member) w found

theorem amount_decimal {text : String} {q : ℚ} (read : amountOf text = some q) : Decimal q := by
  simp only [amountOf] at read
  split at read
  · exact unsigned_value_decimal read
  · cases read

theorem configured_sound {minStake : Option String} {u : ℚ × UnitFrom}
    (floor : configuredUnit minStake = some u) : UnitSound u := by
  obtain ⟨q, read, rfl⟩ := Option.map_eq_some_iff.mp floor
  obtain ⟨parsed, positive⟩ := Option.filter_eq_some_iff.mp read
  obtain ⟨text, -, value⟩ := Option.bind_eq_some_iff.mp parsed
  exact ⟨by simpa using positive, amount_decimal value⟩

theorem unit_sound {rows : List Row} {matched : List String} {minStake : Option String}
    {u : ℚ × UnitFrom} (sized : sizeStakeUnit (weightsBySource rows) matched minStake = some u) :
    UnitSound u := by
  unfold sizeStakeUnit at sized
  split at sized
  · exact configured_sound sized
  · rename_i seen _
    cases sized
    exact observed_sound seen
  · rename_i seen floor
    split at sized
    · cases sized
      exact observed_sound seen
    · cases sized
      exact configured_sound floor

theorem operator_stake_decimal (rows : List Row) (configured : List String) :
    Decimal (operatorStakeOf (weightsBySource rows) configured) := by
  apply decimal_sum
  intro q member
  obtain ⟨src, -, rfl⟩ := List.mem_map.mp member
  cases held : (weightsBySource rows).get src with
  | none => exact decimal_zero
  | some w => exact weights_decimal rows _ (OrderedMap.get_eq_some_iff.mp held)

theorem total_decimal {validators : Snapshot} {S : ℚ} (summed : totalStake validators = .ok S) :
    Decimal S := by
  unfold totalStake at summed
  split at summed
  · cases summed
  · cases pass : weighRows ∅ validators.rows with
    | error reason => simp [pass, Except.bind] at summed
    | ok bySource =>
      simp only [pass, Except.bind] at summed
      split at summed
      · cases summed
      · cases summed
        apply decimal_sum
        intro q member
        obtain ⟨e, -, rfl⟩ := List.mem_map.mp member
        exact bcnum_decimal e.2

/- What a reading with a count of stakes rests on. -/
structure Sized (validators : Snapshot) (configured : List String) (bands : Bands)
    (e : Evaluation) (S ours unit : ℚ) : Prop where
  summed : Decimal S
  held : Decimal ours
  sound : 0 < unit ∧ Decimal unit
  total : e.totalStake = some (plainText S)
  operator : e.operatorStake = some (plainText ours)
  unitText : e.unitStake = some (plainText unit)
  margin : e.stakesToHalt = (classifyMargin ours S (some unit) bands).stakesToHalt

theorem sized_reading {validators : Snapshot} {sources : OperatorSources} {minStake : Option String}
    {bands : Bands} {m : StakeCount} {u : String}
    (halts : (evaluateStakeShare validators sources minStake bands).stakesToHalt = some m)
    (sized : (evaluateStakeShare validators sources minStake bands).unitStake = some u) :
    ∃ S unit, totalStake validators = .ok S ∧
      Sized validators (normalizeSources sources) bands
        (evaluateStakeShare validators sources minStake bands) S
        (operatorStakeOf (weightsBySource validators.rows) (normalizeSources sources)) unit := by
  unfold evaluateStakeShare at halts sized ⊢
  by_cases unset : normalizeSources sources = []
  · simp [unset, emptyResult] at halts
  · cases summed : totalStake validators with
    | error reason => simp [unset, summed, emptyResult] at halts
    | ok S =>
      by_cases poor : S ≤ 0
      · simp [unset, summed, poor, emptyResult] at halts
      · by_cases strange :
            matchedSources (weightsBySource validators.rows) (normalizeSources sources) = []
        · simp [unset, summed, poor, strange, emptyResult] at halts
        · simp only [unset, summed, poor, strange, if_false] at halts sized ⊢
          obtain ⟨v, found, rfl⟩ := Option.map_eq_some_iff.mp sized
          refine ⟨S, v.1, rfl, ?_⟩
          have sound := unit_sound found
          exact ⟨total_decimal summed, operator_stake_decimal _ _, sound, rfl, rfl,
            by simp only [found, Option.map_some], by simp only [found, Option.map_some]⟩

theorem unsigned_text_head (q : ℚ) : ((unsignedText q).head?).any Char.isDigit = true := by
  have digit := pad_digits (places q + 1) ⌊q * 10 ^ places q⌋.toNat
  have long := le_length_pad (places q + 1) (Nat.toDigits 10 ⌊q * 10 ^ places q⌋.toNat)
  simp only [unsignedText]
  generalize padLeft (places q + 1) (Nat.toDigits 10 ⌊q * 10 ^ places q⌋.toNat) = ds at *
  cases ds with
  | nil => simp at long
  | cons d ds =>
    have first := digit d List.mem_cons_self
    obtain ⟨more, size⟩ : ∃ more, (d :: ds).length - places q = more + 1 :=
      ⟨(d :: ds).length - places q - 1, by omega⟩
    rw [size, List.take_succ_cons]
    split <;> simp [first]

theorem amount_text {q : ℚ} (decimal : Decimal q) (nonneg : 0 ≤ q) :
    amountOf (plainText q) = some q := by
  obtain ⟨places, n, shape⟩ := decimal
  have solid : ∀ c ∈ unsignedText q, isSpace c = false := by
    intro c member
    rcases unsigned_text_chars q c member with digit | rfl
    · exact digit_not_space digit
    · decide
  simp only [amountOf, plainText, if_neg (not_lt.mpr nonneg), String.toList_ofList,
    trim_of_no_space solid, unsigned_text_head, if_true]
  exact unsigned_text_value shape nonneg

/-- What a projection of k further units reports of the gate. -/
theorem projected_gate {validators : Snapshot} {configured : List String} {bands asked : Bands}
    {e : Evaluation} {S ours unit : ℚ} (reading : Sized validators configured bands e S ours unit)
    (k : ℕ) :
    (projectCompetingStake e (plainText (k * unit)) asked).any (·.margin.meetsGate) = true ↔
      (k : ℤ) < stakesNeeded ours S unit := by
  obtain ⟨positive, decimal⟩ := reading.sound
  have amount := amount_text (decimal.natMul k) (mul_nonneg (Nat.cast_nonneg k) positive.le)
  simp only [projectCompetingStake, reading.total, reading.operator, amount,
    bcnum_text reading.summed, bcnum_text reading.held, Option.any_some, classifyMargin,
    decide_eq_true_eq]
  exact gate_kept_iff positive k

/-- A reading's count of stakes is the least number of units that loses the gate exactly where the
    gate is lost already or that number is a double. -/
theorem stakes_to_halt_iff {validators : Snapshot} {sources : OperatorSources}
    {minStake : Option String} {bands : Bands} {m : StakeCount} {u : String}
    (halts : (evaluateStakeShare validators sources minStake bands).stakesToHalt = some m)
    (sized : (evaluateStakeShare validators sources minStake bands).unitStake = some u)
    (asked : Bands) :
    ∃ S ours, totalStake validators = .ok S ∧
      ours = operatorStakeOf (weightsBySource validators.rows) (normalizeSources sources) ∧
      ((∀ k : ℕ, (projectCompetingStake (evaluateStakeShare validators sources minStake bands)
          (plainText (k * bcnum u)) asked).any (·.margin.meetsGate) = true ↔ m.Exceeds k) ↔
        3 * ours ≤ 2 * S ∨
          numberOf (stakesNeeded ours S (bcnum u)) = .finite (stakesNeeded ours S (bcnum u))) := by
  obtain ⟨S, unit, summed, reading⟩ := sized_reading halts sized
  refine ⟨S, _, summed, rfl, ?_⟩
  have text : bcnum u = unit := by
    have same := reading.unitText
    rw [sized, Option.some.injEq] at same
    rw [same, bcnum_text reading.sound.2]
  have margin := reading.margin
  rw [halts, classifyMargin] at margin
  simp only [text, projected_gate reading]
  generalize operatorStakeOf (weightsBySource validators.rows) (normalizeSources sources) = ours at *
  by_cases lost : 3 * ours ≤ 2 * S
  · have none_needed : ¬ 0 < stakesNeeded ours S unit := by
      rw [stakes_needed_pos reading.sound.1]
      exact not_lt.mpr lost
    simp only [not_lt.mpr lost, decide_false, Bool.not_false, if_true, Option.some.injEq] at margin
    refine iff_of_true (fun k => ?_) (Or.inl lost)
    rw [margin, StakeCount.Exceeds]
    refine iff_of_false (by omega) ?_
    exact not_lt.mpr (Nat.cast_nonneg k)
  · have kept := not_le.mp lost
    have positive := (stakes_needed_pos reading.sound.1).mpr kept
    simp only [kept, decide_true, Bool.not_true, Option.map_some] at margin
    have count : m = numberOf (stakesNeeded ours S unit) := by simpa using margin
    rw [count, or_iff_right lost, ← exceeds_iff positive]
    exact forall_congr' fun k => Iff.comm

end Reading

section Sample

/- The operator's source against one third-party source of weight 1. -/
def twoSources (held : String) : Snapshot := ⟨[⟨"k1", some "A", some held⟩, ⟨"k2", some "B", some "1"⟩], false⟩

def sampleReading (held : String) : Evaluation :=
  evaluateStakeShare (twoSources held) (.list [some "A"]) none ⟨2, 1⟩

/-- 2^53 + 1 stakes are needed; the count reads 2^53, and at that many the gate still holds. -/
theorem large_count_rounded :
    (sampleReading "18014398509481988").stakesToHalt = some (.finite (2 ^ 53)) ∧
    (sampleReading "18014398509481988").unitStake = some "1" ∧
    ¬ ((projectCompetingStake (sampleReading "18014398509481988") "9007199254740992" ⟨2, 1⟩).any
      (·.margin.meetsGate) = true ↔ (StakeCount.finite (2 ^ 53)).Exceeds (2 ^ 53)) := by
  decide +kernel

/-- The gate holds by 4 and is lost with the fifth stake. -/
theorem small_count_exact :
    ∃ S ours, totalStake (twoSources "12") = .ok S ∧
      ours = operatorStakeOf (weightsBySource (twoSources "12").rows)
        (normalizeSources (.list [some "A"])) ∧
      ((∀ k : ℕ, (projectCompetingStake (sampleReading "12") (plainText (k * bcnum "1")) ⟨2, 1⟩).any
          (·.margin.meetsGate) = true ↔ (StakeCount.finite 5).Exceeds k) ↔
        3 * ours ≤ 2 * S ∨
          numberOf (stakesNeeded ours S (bcnum "1")) = .finite (stakesNeeded ours S (bcnum "1"))) :=
  stakes_to_halt_iff (by decide +kernel) (by decide +kernel) ⟨2, 1⟩

end Sample
end XChainHub.StakeShare
