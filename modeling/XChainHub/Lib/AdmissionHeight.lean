import XChainHub.Consensus.Gates.AdmissionEncoding
import XChainHub.Library.BinaryRounding
import XChainHub.Peers.HubDb.AdmissionHeightWatermark

/-!
The follower's bound on a proposed admission map and the stored columns of one,
lib/admission_height.js, with the era gate they are signed under.
-/
namespace XChainHub.AdmissionHeight
open BinaryRounding DecimalText HubDb KeyedEntries MirrorAdmissionGate

section Heights

/- From here on a text of digits is read as Infinity. -/
def overflow : ℕ := 2 ^ 1024 - 2 ^ 970

def readDigits (negative : Bool) (digits : List Char) : Option ℚ :=
  if digits.isEmpty || !digits.all Char.isDigit || overflow ≤ digitsValue digits then none
  else
    let h := toDouble (digitsValue digits)
    some (if negative then -h else h)

/- _readHeight. -/
def readHeight : AdmitHeight → Option ℚ
  | .number q => some q
  | .text s =>
    match trim s.toList with
    | '-' :: digits => readDigits true digits
    | digits => readDigits false digits
  | .unusable => none

/- Number(v), rounded where it is read from a text. -/
def heightNumber : AdmitHeight → AdmitHeight
  | .number q => .number q
  | .text s =>
    match signedValue (trim s.toList) with
    | some q => .number (toDouble q)
    | none => .unusable
  | .unusable => .unusable

end Heights

section Era

/- The activations by coin and network; an unset one is none. -/
abbrev Activations := List (String × Option ℚ)

/- Lower-casing other letters than the ASCII ones yields no network of an activation. -/
def admissionKey (coin network : Option String) : Option String :=
  match coin, network with
  | some coin, some network =>
    let c := String.ofList ((trim coin.toList).map Char.toUpper)
    let n := String.ofList ((trim network.toList).map Char.toLower)
    if c = "" || n = "" then none else some (c ++ ":" ++ n)
  | _, _ => none

/- _activeIn. -/
def activeIn (activations : Activations) (coin network : Option String) (height : AdmitHeight) :
    Bool :=
  match (admissionKey coin network).bind (fun key => (activations.lookup key).join),
      readHeight height with
  | some threshold, some h => threshold ≤ h
  | _, _ => false

def isMirrorAdmissionProducerActive (activations : Activations) (coin network : Option String)
    (height : AdmitHeight) : Bool :=
  activeIn activations coin network height

def isAdmissionEra (activations : Activations) (network : Option String) (eraBlock : AdmitHeight) :
    Bool :=
  isMirrorAdmissionProducerActive activations (some "BTC") network eraBlock

end Era

section Bound

def admitMinFutureBlocks : ℚ := 1

def admitMaxFutureTable : List (String × ℚ) := [("BTC", 6), ("LTC", 24), ("DOGE", 60)]

/- The chain is a normalized code. -/
def admitMaxFutureBlocks (chain : String) : ℚ := (admitMaxFutureTable.lookup chain).getD 6

def isInteger (q : ℚ) : Bool := q.den = 1

def isAdmitBlockInFollowerBound (chain : String) (admitBlock : AdmitHeight) (ownTip : ℚ) : Bool :=
  match readHeight admitBlock with
  | none => false
  | some h =>
    isInteger h && 0 ≤ h && toDouble (ownTip + admitMinFutureBlocks) ≤ h &&
      h ≤ toDouble (ownTip + admitMaxFutureBlocks chain)

/- What a refusal's reason spells; each but the first two names its chain. -/
inductive AdmitRefusal where
  | unusableReadSet (readSet : List String)
  | noMap
  | omits (chain : String)
  | noOwnTip (chain : String)
  | outside (chain : String) (height : AdmitHeight) (low high tip : ℚ)
  | unread (chain : String)
  deriving DecidableEq

def AdmitRefusal.chain : AdmitRefusal → Option String
  | .unusableReadSet _ => none
  | .noMap => none
  | .omits chain => some chain
  | .noOwnTip chain => some chain
  | .outside chain _ _ _ _ => some chain
  | .unread chain => some chain

/- A tip is a number or, where the hub has none, null. -/
def checkChain (map : AdmissionMap) (ownTips : String → Option ℚ) (c : String) :
    Option AdmitRefusal :=
  match map.lookup c with
  | none => some (.omits c)
  | some height =>
    match ownTips c with
    | none => some (.noOwnTip c)
    | some own =>
      if !isInteger own || own < 0 then some (.noOwnTip c)
      else if !isAdmitBlockInFollowerBound c height own then
        some (.outside c height (toDouble (own + admitMinFutureBlocks))
          (toDouble (own + admitMaxFutureBlocks c)) own)
      else none

/- The first refusal, none where the map is accepted. -/
def checkAdmitBlocks (readSet : List String) (map : Option AdmissionMap)
    (ownTips : String → Option ℚ) : Option AdmitRefusal :=
  match readSet.mapM normalizeChain with
  | none => some (.unusableReadSet readSet)
  | some [] => some (.unusableReadSet readSet)
  | some (first :: others) =>
    match map with
    | none => some .noMap
    | some map =>
      match (first :: others).findSome? (checkChain map ownTips) with
      | some refusal => some refusal
      | none => ((map.map Prod.fst).find? (fun k => k ∉ first :: others)).map AdmitRefusal.unread

end Bound

section Columns

def admitColumnChains : List String := ["BTC", "LTC", "DOGE"]

def admitColumn (map : AdmissionMap) (chain : String) : Option AdmitHeight :=
  (map.lookup chain).map heightNumber

def admitBlocksToColumns (map : AdmissionMap) : AdmitColumns :=
  ⟨admitColumn map "BTC", admitColumn map "LTC", admitColumn map "DOGE"⟩

def noColumns : AdmitColumns := ⟨none, none, none⟩

/- The field of a row in the round. -/
def signedInMemory (era : Bool) (map : AdmissionMap) : Option String :=
  (rowAdmitBlocks noColumns (some map)).bind (admissionCanonicalField era)

/- The field of a row read back. -/
def rebuiltFromColumns (era : Bool) (map : AdmissionMap) : Option String :=
  (rowAdmitBlocks (admitBlocksToColumns map) none).bind (admissionCanonicalField era)

end Columns

section Accepted

/- A height as the columns carry it: a whole number in the safe range. -/
def Stores (height : AdmitHeight) (n : ℕ) : Prop :=
  heightNumber height = .number n ∧ n ≤ maxSafeInteger.toNat

theorem double_zero : toDouble 0 = 0 := by simp [toDouble]

theorem double_natural_bound {v : ℕ} (bounded : toDouble v ≤ maxSafeInteger) :
    toDouble v = v ∧ v ≤ maxSafeInteger.toNat := by
  have small : v < 2 ^ 53 := by
    by_contra large
    have positive : 0 < v := by omega
    have leading := pow_le_double (q := v) (by exact_mod_cast positive)
    have wide : (53 : ℤ) ≤ Int.log 2 (v : ℚ) := by
      rw [Int.log_natCast]
      have size := (Nat.le_log_iff_pow_le (b := 2) (by decide) (by omega)).mpr (not_lt.mp large)
      exact_mod_cast size
    have grown : (2 : ℚ) ^ (53 : ℤ) ≤ 2 ^ Int.log 2 (v : ℚ) :=
      zpow_le_zpow_right₀ (by norm_num) wide
    have limit : ((maxSafeInteger : ℤ) : ℚ) < 2 ^ (53 : ℤ) := by
      rw [zpow_ofNat]
      norm_num [maxSafeInteger]
    linarith
  have exact_value := double_of_natural small
  refine ⟨exact_value, ?_⟩
  have limit : maxSafeInteger.toNat = 2 ^ 53 - 1 := by decide
  omega

theorem digits_read {negative : Bool} {digits : List Char} {h : ℚ}
    (read : readDigits negative digits = some h) :
    digits ≠ [] ∧ (∀ c ∈ digits, c.isDigit = true) ∧
      h = if negative then -toDouble (digitsValue digits) else toDouble (digitsValue digits) := by
  unfold readDigits at read
  split at read
  · cases read
  · rename_i sound
    rw [Bool.or_eq_true, Bool.or_eq_true, not_or, not_or] at sound
    refine ⟨?_, ?_, ?_⟩
    · rintro rfl
      exact sound.1.1 rfl
    · have digit := sound.1.2
      rw [Bool.not_eq_true, Bool.not_eq_false', List.all_eq_true] at digit
      exact digit
    · exact (Option.some.inj read).symm

/-- What the follower reads as a natural number is stored as that number. -/
theorem read_stored {height : AdmitHeight} {h : ℚ} (read : readHeight height = some h)
    (whole : isInteger h = true) (nonneg : 0 ≤ h) (bounded : h ≤ maxSafeInteger) :
    ∃ n : ℕ, Stores height n := by
  cases height with
  | number q =>
    obtain rfl := Option.some.inj read
    obtain ⟨n, size⟩ := Int.eq_ofNat_of_zero_le (Rat.num_nonneg.mpr nonneg)
    have den : q.den = 1 := of_decide_eq_true whole
    have value : q = n := by
      rw [← Rat.num_div_den q, den, size]
      simp
    refine ⟨n, by rw [value]; rfl, ?_⟩
    rw [value] at bounded
    have limit : maxSafeInteger = (maxSafeInteger.toNat : ℤ) := by decide
    rw [limit] at bounded
    exact_mod_cast bounded
  | text s =>
    simp only [readHeight] at read
    split at read
    · rename_i digits shape
      -- A minus sign is read as a natural number only in front of zero.
      obtain ⟨filled, digit, value⟩ := digits_read read
      rw [if_pos rfl] at value
      have none_left : digitsValue digits = 0 := by
        by_contra some_left
        have positive : (0 : ℚ) < digitsValue digits := by
          exact_mod_cast Nat.pos_of_ne_zero some_left
        have leading := pow_le_double positive
        have unit : (0 : ℚ) < 2 ^ Int.log 2 (digitsValue digits : ℚ) :=
          zpow_pos (by norm_num) _
        linarith
      refine ⟨0, ?_, Nat.zero_le _⟩
      have parsed : signedValue (trim s.toList) = some 0 := by
        rw [shape, signedValue, unsigned_value_whole digit filled, none_left]
        simp
      simp only [heightNumber, parsed, double_zero, Nat.cast_zero]
    · rename_i unsigned
      obtain ⟨filled, digit, value⟩ := digits_read read
      rw [if_neg (by decide)] at value
      rw [value] at bounded
      obtain ⟨kept, small⟩ := double_natural_bound bounded
      refine ⟨digitsValue (trim s.toList), ?_, small⟩
      have parsed : signedValue (trim s.toList) = some (digitsValue (trim s.toList) : ℚ) := by
        unfold signedValue
        split
        · rename_i rest plus
          have sign := digit '+' (by rw [plus]; exact List.mem_cons_self)
          cases sign
        · rename_i rest minus
          exact absurd minus (unsigned rest)
        · exact unsigned_value_whole digit filled
      simp only [heightNumber, parsed, kept]
  | unusable => cases read

/- The heights the follower takes are ones it can read. -/
theorem bound_read {chain : String} {height : AdmitHeight} {tip : ℚ}
    (inside : isAdmitBlockInFollowerBound chain height tip = true) :
    ∃ h, readHeight height = some h ∧ isInteger h = true ∧ 0 ≤ h := by
  unfold isAdmitBlockInFollowerBound at inside
  split at inside
  · cases inside
  · rename_i h read
    simp only [Bool.and_eq_true, decide_eq_true_eq] at inside
    exact ⟨h, read, inside.1.1.1, inside.1.1.2⟩

theorem checked_chain {map : AdmissionMap} {ownTips : String → Option ℚ} {c : String}
    (passed : checkChain map ownTips c = none) :
    ∃ height tip, map.lookup c = some height ∧
      isAdmitBlockInFollowerBound c height tip = true := by
  unfold checkChain at passed
  split at passed
  · cases passed
  · rename_i height found
    split at passed
    · cases passed
    · rename_i own _
      split at passed
      · cases passed
      · split at passed
        · cases passed
        · rename_i inside
          rw [Bool.not_eq_true, Bool.not_eq_false'] at inside
          exact ⟨height, own, found, inside⟩

theorem normalized_sources {readSet chains : List String}
    (normalized : readSet.mapM normalizeChain = some chains) :
    ∀ c ∈ chains, ∃ raw ∈ readSet, normalizeChain raw = some c := by
  induction readSet generalizing chains with
  | nil =>
    obtain rfl : chains = [] := by simpa using normalized.symm
    simp
  | cons raw rest ih =>
    rw [List.mapM_cons] at normalized
    obtain ⟨c, own, later⟩ := Option.bind_eq_some_iff.mp normalized
    obtain ⟨others, tail, joined⟩ := Option.bind_eq_some_iff.mp later
    obtain rfl := Option.some.inj joined
    intro d member
    rcases List.mem_cons.mp member with rfl | inside
    · exact ⟨raw, List.mem_cons_self, own⟩
    · obtain ⟨source, from_rest, same⟩ := ih tail d inside
      exact ⟨source, List.mem_cons_of_mem raw from_rest, same⟩

/-- An accepted map names chains of the read set only, each with a height the follower reads. -/
theorem accepted_entries {readSet : List String} {map : AdmissionMap}
    {ownTips : String → Option ℚ} (distinct : (map.map Prod.fst).Nodup)
    (accepted : checkAdmitBlocks readSet (some map) ownTips = none) :
    map ≠ [] ∧ ∀ e ∈ map, (∃ raw ∈ readSet, normalizeChain raw = some e.1) ∧
      ∃ h, readHeight e.2 = some h ∧ isInteger h = true ∧ 0 ≤ h := by
  unfold checkAdmitBlocks at accepted
  split at accepted
  · cases accepted
  · cases accepted
  · rename_i first others normalized
    simp only at accepted
    split at accepted
    · cases accepted
    · rename_i passed
      rw [List.findSome?_eq_none_iff] at passed
      rw [Option.map_eq_none_iff, List.find?_eq_none] at accepted
      have chains := normalized_sources normalized
      constructor
      · rintro rfl
        obtain ⟨height, _, found, _⟩ := checked_chain (passed first List.mem_cons_self)
        cases found
      · intro e member
        have named := accepted e.1 (List.mem_map_of_mem member)
        rw [decide_eq_true_eq, not_not] at named
        obtain ⟨height, tip, found, inside⟩ := checked_chain (passed e.1 named)
        rw [lookup_member distinct member, Option.some.injEq] at found
        rw [found]
        exact ⟨chains e.1 named, bound_read inside⟩

end Accepted

section Rebuilt

/- The entry that the columns keep of one. -/
def storedEntry (entry : String × AdmitHeight) : String × AdmitHeight :=
  (entry.1, heightNumber entry.2)

def columnEntries (map : AdmissionMap) : AdmissionMap :=
  admitColumnChains.filterMap (fun c => (admitColumn map c).map (fun h => (c, h)))

def withColumn (code : String) (column : Option AdmitHeight) (map : Option AdmissionMap) :
    Option AdmissionMap :=
  match column with
  | none => map
  | some h => some (map.getD [] ++ [(code, h)])

theorem read_stored_column {code : String} {column : Option AdmitHeight}
    {map : Option AdmissionMap}
    (sound : ∀ h ∈ column, ∃ n : ℕ, h = .number n ∧ n ≤ maxSafeInteger.toNat) :
    readColumn code column map = some (withColumn code column map) := by
  cases column with
  | none => rfl
  | some h =>
    obtain ⟨n, rfl, small⟩ := sound h rfl
    have safe : (isSafeInteger (n : ℚ) && decide ((0 : ℚ) ≤ n)) = true := by
      unfold isSafeInteger
      simp only [Bool.and_eq_true, decide_eq_true_eq]
      exact ⟨⟨by simp, by simpa using small⟩, Nat.cast_nonneg n⟩
    simp only [readColumn, columnNumber, safe, if_true, withColumn]

theorem columns_read {map : AdmissionMap}
    (sound : ∀ c, ∀ h ∈ admitColumn map c, ∃ n : ℕ, h = .number n ∧ n ≤ maxSafeInteger.toNat) :
    columnsAdmitBlocks (admitBlocksToColumns map) =
      some (if columnEntries map = [] then none else some (columnEntries map)) := by
  unfold columnsAdmitBlocks admitBlocksToColumns
  simp only [read_stored_column (sound "BTC"), Option.bind_some,
    read_stored_column (sound "LTC"), read_stored_column (sound "DOGE"), columnEntries,
    admitColumnChains]
  cases btc : admitColumn map "BTC" <;> cases ltc : admitColumn map "LTC" <;>
    cases doge : admitColumn map "DOGE" <;> simp [withColumn, btc, ltc, doge]

variable {map : AdmissionMap}

theorem stored_keys : (map.map storedEntry).map Prod.fst = map.map Prod.fst := by
  rw [List.map_map]
  rfl

theorem column_keys : ((columnEntries map).map Prod.fst).Nodup := by
  have chains : ((columnEntries map).map Prod.fst).Sublist admitColumnChains := by
    unfold columnEntries
    generalize admitColumnChains = chains
    induction chains with
    | nil => exact List.Sublist.refl []
    | cons c chains ih =>
      cases column : admitColumn map c with
      | none =>
        rw [List.filterMap_cons_none (by rw [column]; rfl)]
        exact ih.cons c
      | some h =>
        rw [List.filterMap_cons_some (by rw [column]; rfl), List.map_cons]
        exact ih.cons_cons c
  exact chains.nodup (by decide)

/-- The columns keep every entry of a map over their chains. -/
theorem columns_perm (distinct : (map.map Prod.fst).Nodup)
    (within : ∀ e ∈ map, e.1 ∈ admitColumnChains) :
    (columnEntries map).Perm (map.map storedEntry) := by
  apply perm_of_entries column_keys (by rw [stored_keys]; exact distinct)
  rintro ⟨code, height⟩
  rw [columnEntries, List.mem_filterMap, List.mem_map]
  constructor
  · rintro ⟨c, _, column⟩
    obtain ⟨h, found, same⟩ := Option.map_eq_some_iff.mp column
    obtain ⟨source, listed, rfl⟩ := Option.map_eq_some_iff.mp found
    exact ⟨(c, source), lookup_listed listed, same⟩
  · rintro ⟨entry, member, same⟩
    obtain ⟨rfl, rfl⟩ := Prod.mk.inj same
    refine ⟨entry.1, within entry member, ?_⟩
    rw [admitColumn, lookup_member distinct member]
    rfl

end Rebuilt

section Spelled

/- A height the encoder spells as it is written. -/
def isSpelled : AdmitHeight → Bool
  | .number _ => true
  | .text s => isCanonicalHeight s
  | .unusable => false

theorem canonical_value {s : String} (canonical : isCanonicalHeight s = true) :
    signedValue (trim s.toList) = some (digitsValue s.toList : ℚ) := by
  have written : s = String.ofList s.toList := String.ofList_toList.symm
  rw [written] at canonical
  have shape := canonical_height_digits canonical
  have digit : ∀ c ∈ s.toList, c.isDigit = true := by
    rw [shape]
    exact fun c member => Nat.isDigit_of_mem_toDigits (by decide) (by decide) member
  have filled : s.toList ≠ [] := by
    rw [shape]
    exact Nat.toDigits_ne_nil
  rw [trim_of_no_space (fun c member => digit_not_space (digit c member))]
  unfold signedValue
  split
  · rename_i rest plus
    have sign := digit '+' (by rw [plus]; exact List.mem_cons_self)
    cases sign
  · rename_i rest minus
    have sign := digit '-' (by rw [minus]; exact List.mem_cons_self)
    cases sign
  · exact unsigned_value_whole digit filled

theorem canonical_stored {s : String} {n : ℕ} (stores : Stores (.text s) n)
    (canonical : isCanonicalHeight s = true) : s = toString (n : ℤ) := by
  obtain ⟨number, small⟩ := stores
  simp only [heightNumber, canonical_value canonical, AdmitHeight.number.injEq] at number
  have bounded : toDouble (digitsValue s.toList) ≤ maxSafeInteger := by
    have limit : maxSafeInteger = (maxSafeInteger.toNat : ℤ) := by decide
    rw [number, limit]
    exact_mod_cast small
  rw [(double_natural_bound bounded).1] at number
  have value : digitsValue s.toList = n := by exact_mod_cast number
  have written : s = String.ofList s.toList := String.ofList_toList.symm
  rw [written] at canonical
  have shape := canonical_height_digits canonical
  apply String.toList_inj.mp
  rw [natural_spelling, shape, value]

/-- The encoder spells an entry as it is stored or not at all. -/
theorem encode_stored {entry : String × AdmitHeight} {n : ℕ} (stores : Stores entry.2 n) :
    encodeEntry entry = if isSpelled entry.2 then encodeEntry (storedEntry entry) else none := by
  obtain ⟨code, height⟩ := entry
  cases height with
  | number q => rfl
  | text s =>
    cases canonical : isCanonicalHeight s with
    | false =>
      simp only [isSpelled, canonical, Bool.false_eq_true, if_false]
      unfold encodeEntry
      split
      · rfl
      · simp only [heightSpelling, canonical, Bool.false_eq_true, if_false]
    | true =>
      have text := canonical_stored stores canonical
      have safe : isSafeInteger (n : ℚ) = true := by
        unfold isSafeInteger
        simp only [Bool.and_eq_true, decide_eq_true_eq]
        exact ⟨by simp, by simpa using stores.2⟩
      simp only [isSpelled, canonical, if_true, storedEntry, stores.1]
      unfold encodeEntry
      simp only [heightSpelling, safe, if_true, Rat.num_natCast, ← text]
  | unusable => cases stores.1

theorem stored_encodes {entry : String × AdmitHeight} {n : ℕ} (chain : isChainCode entry.1 = true)
    (stores : Stores entry.2 n) : ∃ t, encodeEntry (storedEntry entry) = some t := by
  refine ⟨String.ofList (entryCell entry.1 n), ?_⟩
  unfold storedEntry
  rw [stores.1]
  exact encode_natural.mpr ⟨n, rfl, chain, stores.2, String.toList_ofList⟩

variable {map : AdmissionMap}

/-- A map is spelled as it is stored where every height is, and else not at all. -/
theorem encode_stored_entries (chains : ∀ e ∈ map, isChainCode e.1 = true)
    (stored : ∀ e ∈ map, ∃ n, Stores e.2 n) :
    (∃ texts, (map.map storedEntry).mapM encodeEntry = some texts) ∧
      map.mapM encodeEntry =
        if map.all (fun e => isSpelled e.2) then (map.map storedEntry).mapM encodeEntry
        else none := by
  induction map with
  | nil => exact ⟨⟨[], rfl⟩, rfl⟩
  | cons entry map ih =>
    obtain ⟨⟨texts, rest⟩, same⟩ := ih
      (fun e member => chains e (List.mem_cons_of_mem entry member))
      (fun e member => stored e (List.mem_cons_of_mem entry member))
    obtain ⟨n, stores⟩ := stored entry List.mem_cons_self
    obtain ⟨text, own⟩ := stored_encodes (chains entry List.mem_cons_self) stores
    have head := encode_stored stores
    constructor
    · refine ⟨text :: texts, ?_⟩
      rw [List.map_cons, List.mapM_cons, own, rest]
      rfl
    · rw [List.mapM_cons, List.map_cons, List.mapM_cons, head, same, List.all_cons]
      cases isSpelled entry.2 with
      | false => rfl
      | true =>
        cases map.all (fun e => isSpelled e.2) with
        | false =>
          simp only [if_true, Bool.true_and, Bool.false_eq_true, if_false, own]
          rfl
        | true => simp only [if_true, Bool.true_and]

end Spelled

section Field

variable {map : AdmissionMap}

theorem encode_by_key (filled : map ≠ []) :
    encodeAdmitBlocks map = ((byKey map).mapM encodeEntry).map (String.intercalate ",") := by
  unfold encodeAdmitBlocks
  rw [if_neg (by simpa using filled)]

theorem encode_same_entries {few many : AdmissionMap} (distinct : (few.map Prod.fst).Nodup)
    (same : few.Perm many) : encodeAdmitBlocks few = encodeAdmitBlocks many := by
  have empty : few.isEmpty = many.isEmpty := by
    cases few with
    | nil => rw [List.nil_perm.mp same]
    | cons entry few =>
      cases many with
      | nil => cases List.perm_nil.mp same
      | cons first many => rfl
  have order := by_key_unique distinct same
  unfold encodeAdmitBlocks
  rw [empty]
  change (if many.isEmpty then none else ((byKey few).mapM encodeEntry).map _) = _
  rw [order]

theorem memory_field (era : Bool) :
    signedInMemory era map = admissionCanonicalField era (some map) := rfl

theorem column_field (filled : map ≠ []) (distinct : (map.map Prod.fst).Nodup)
    (within : ∀ e ∈ map, e.1 ∈ admitColumnChains) (stored : ∀ e ∈ map, ∃ n, Stores e.2 n)
    (era : Bool) :
    rebuiltFromColumns era map = admissionCanonicalField era (some (map.map storedEntry)) := by
  have entries := columns_perm distinct within
  have some_entry : columnEntries map ≠ [] := by
    intro empty
    rw [empty, List.nil_perm, List.map_eq_nil_iff] at entries
    exact filled entries
  have sound : ∀ c, ∀ h ∈ admitColumn map c, ∃ n : ℕ, h = .number n ∧ n ≤ maxSafeInteger.toNat := by
    intro c h column
    obtain ⟨source, found, rfl⟩ := Option.map_eq_some_iff.mp column
    exact stored (c, source) (lookup_listed found)
  have read := columns_read sound
  rw [if_neg some_entry] at read
  unfold rebuiltFromColumns rowAdmitBlocks
  rw [read]
  simp only [Option.bind_some, admissionCanonicalField, encode_same_entries column_keys entries]

/-- The field of the round is the rebuilt one where every height is spelled as written or no
field is signed, and is refused elsewhere. -/
theorem fields_of_stored (filled : map ≠ []) (distinct : (map.map Prod.fst).Nodup)
    (within : ∀ e ∈ map, e.1 ∈ admitColumnChains) (stored : ∀ e ∈ map, ∃ n, Stores e.2 n)
    (era : Bool) :
    (∃ field, rebuiltFromColumns era map = some field) ∧
      signedInMemory era map =
        if era = false ∨ map.all (fun e => isSpelled e.2) = true then rebuiltFromColumns era map
        else none := by
  rw [column_field filled distinct within stored, memory_field]
  cases era with
  | false => exact ⟨⟨"", rfl⟩, rfl⟩
  | true =>
    have moved := by_key_perm map
    have codes : ∀ c ∈ admitColumnChains, isChainCode c = true := by decide
    have sorted_codes : ∀ e ∈ byKey map, isChainCode e.1 = true := fun e member =>
      codes e.1 (within e (moved.mem_iff.mp member))
    obtain ⟨⟨texts, spelled⟩, same⟩ := encode_stored_entries sorted_codes
      (fun e member => stored e (moved.mem_iff.mp member))
    have all_moved : (byKey map).all (fun e => isSpelled e.2) = map.all (fun e => isSpelled e.2) := by
      rw [Bool.eq_iff_iff, List.all_eq_true, List.all_eq_true]
      exact ⟨fun every e member => every e (moved.mem_iff.mpr member),
        fun every e member => every e (moved.mem_iff.mp member)⟩
    have order : byKey (map.map storedEntry) = (byKey map).map storedEntry :=
      by_key_map heightNumber map
    have some_stored : map.map storedEntry ≠ [] := by
      rw [Ne, List.map_eq_nil_iff]
      exact filled
    simp only [admissionCanonicalField, Bool.not_true, Bool.false_eq_true, if_false,
      encode_by_key filled, encode_by_key some_stored, order, same, all_moved, spelled]
    refine ⟨⟨_, rfl⟩, ?_⟩
    cases map.all (fun e => isSpelled e.2) with
    | false => rfl
    | true => rfl

/-- Encoding and decoding are inverse to each other. The columns of an accepted map over their
chains, with heights in the safe range, rebuild a field. The field of the round is the same
one, or is refused where a height's text is not the canonical one. -/
theorem encoding_survives_storage :
    (∀ map field, (map.map Prod.fst).Nodup →
      (∀ e ∈ map, ∃ q, e.2 = .number q ∧ isSafeInteger q = true) →
      encodeAdmitBlocks map = some field →
      ∃ decoded, decodeAdmitBlocks field = some decoded ∧ decoded.Perm map) ∧
    (∀ field map, decodeAdmitBlocks field = some map → encodeAdmitBlocks map = some field) ∧
    ∀ (activations : Activations) (network : Option String) (eraBlock : AdmitHeight)
      (readSet : List String) (ownTips : String → Option ℚ) (map : AdmissionMap),
      (map.map Prod.fst).Nodup →
      (∀ raw ∈ readSet, ∀ c ∈ normalizeChain raw, c ∈ admitColumnChains) →
      checkAdmitBlocks readSet (some map) ownTips = none →
      (∀ e ∈ map, ∀ h ∈ readHeight e.2, h ≤ maxSafeInteger) →
      (∃ field, rebuiltFromColumns (isAdmissionEra activations network eraBlock) map =
        some field) ∧
      signedInMemory (isAdmissionEra activations network eraBlock) map =
        if isAdmissionEra activations network eraBlock = false ∨
            map.all (fun e => isSpelled e.2) = true then
          rebuiltFromColumns (isAdmissionEra activations network eraBlock) map
        else none := by
  refine ⟨?_, ?_, ?_⟩
  · intro map field distinct safe encoded
    have numbers : ∀ e ∈ map, ∃ q : ℚ, e.2 = .number q := by
      intro e member
      obtain ⟨q, number, _⟩ := safe e member
      exact ⟨q, number⟩
    exact ⟨byKey map, decode_encoded distinct numbers encoded, by_key_perm map⟩
  · intro field map decoded
    exact (decode_iff.mp decoded).1
  · intro activations network eraBlock readSet ownTips map distinct within accepted small
    obtain ⟨filled, entries⟩ := accepted_entries distinct accepted
    apply fields_of_stored filled distinct
    · intro e member
      obtain ⟨raw, listed, chain⟩ := (entries e member).1
      exact within raw listed e.1 chain
    · intro e member
      obtain ⟨h, read, whole, nonneg⟩ := (entries e member).2
      exact read_stored read whole nonneg (small e member h read)

def twoChains : AdmissionMap := [("DOGE", .number 260), ("BTC", .text "101")]

def sampleTips (chain : String) : Option ℚ :=
  if chain = "BTC" then some 100 else if chain = "DOGE" then some 250 else none

def testnetActivation : Activations := [("BTC:testnet", some 154234)]

theorem two_chains_survive :
    (∃ decoded, decodeAdmitBlocks "BTC:101,DOGE:260" = some decoded ∧
      decoded.Perm [("DOGE", .number 260), ("BTC", .number 101)]) ∧
    encodeAdmitBlocks [("BTC", .number 101), ("DOGE", .number 260)] = some "BTC:101,DOGE:260" ∧
    checkAdmitBlocks ["BTC", "doge"] (some twoChains) sampleTips = none ∧
    signedInMemory (isAdmissionEra testnetActivation (some "testnet") (.number 154240)) twoChains =
      rebuiltFromColumns (isAdmissionEra testnetActivation (some "testnet") (.number 154240))
        twoChains := by
  have accepted : checkAdmitBlocks ["BTC", "doge"] (some twoChains) sampleTips = none := by
    decide +kernel
  refine ⟨?_, ?_, accepted, ?_⟩
  · exact encoding_survives_storage.1 [("DOGE", .number 260), ("BTC", .number 101)] _ (by decide)
      (by
        intro e member
        rcases List.mem_cons.mp member with rfl | second
        · exact ⟨260, rfl, by decide⟩
        · obtain rfl := List.mem_singleton.mp second
          exact ⟨101, rfl, by decide⟩) (by decide +kernel)
  · exact encoding_survives_storage.2.1 "BTC:101,DOGE:260" _ (by decide +kernel)
  · have same := (encoding_survives_storage.2.2 testnetActivation (some "testnet")
      (.number 154240) ["BTC", "doge"] sampleTips twoChains (by decide) (by decide +kernel) accepted
      (by decide +kernel)).2
    rw [if_pos (Or.inr (by decide +kernel))] at same
    exact same

/-- A text with a leading zero is accepted and stored, but its field is refused in the round. -/
theorem padded_height_refused :
    checkAdmitBlocks ["BTC"] (some [("BTC", .text "0101")]) sampleTips = none ∧
    isAdmissionEra testnetActivation (some "testnet") (.number 154240) = true ∧
    signedInMemory true [("BTC", .text "0101")] = none ∧
    rebuiltFromColumns true [("BTC", .text "0101")] = some "|BTC:101" := by
  refine ⟨?_, ?_, ?_, ?_⟩ <;> decide +kernel

end Field

end XChainHub.AdmissionHeight
