import XChainHub.Library.OrderedMap
import XChainHub.Library.ScriptValue

/-!
The rule of anchor/anchor_proof_binding.js: which anchor rows of a transaction prove
which reward tuple, and the verdict over all of them. A row is what the indexer's JSON
says, so each field is a value and is coerced where the rule reads it.
-/
namespace XChainHub.Anchor.AnchorProofBinding
open ScriptValue NumberText

def ATTESTED_VERSIONS : List Nat := [0, 1, 3, 4, 5, 6, 7]

inductive Family where
  | archive
  | bundle
  deriving DecidableEq

def REWARD_FAMILY_VERSIONS : Family → List Nat
  | .archive => [1, 6]
  | .bundle => [0, 3, 7]

structure AnchorRow where
  version : Value
  checkpointChain : Value
  matchBatchSeq : Value
  status : Value
  checkpointNetwork : Value
  publisher : Value
  snapshotBlock : Value
  actionIndex : Value
  confirmations : Value
  deriving DecidableEq

structure Expectation where
  rewardType : Value
  minConfirmations : Value
  network : Value
  publisher : Value
  roundReference : Value
  snapshotBlock : Value
  legacyDropped : Value

structure RewardTuple where
  minConf : Number
  network : String
  publisher : String
  round : Number
  snapshot : Number
  family : Family
  versions : List Nat

inductive Verdict where
  | verified
  | rejected
  | unknown
  deriving DecidableEq

section Numbers

/- Array.prototype.includes over small literals. -/
def includes (versions : List Nat) (n : Number) : Bool := versions.any (fun v => Number.ofNat v = n)

/- Number.isInteger, with the integer. -/
def wholeNumber (n : Number) : Option Int :=
  match n.rational with
  | none => none
  | some q => if q.den = 1 then some q.num else none

/- a >= b. -/
def atLeast : Number → Number → Bool
  | .nan, _ => false
  | _, .nan => false
  | .infinite false, _ => true
  | _, .infinite true => true
  | .infinite true, _ => false
  | _, .infinite false => false
  | a, b => (b.rational.getD 0) ≤ (a.rational.getD 0)

end Numbers

section Status

def deterministicInvalid (status : List Char) : Bool :=
  "invalid".toList.isPrefixOf (status.map Char.toLower)

/- "invalid: SECTION", a number, "insufficient". -/
def sectionInsufficient (lower : List Char) : Bool :=
  let front := "invalid: section ".toList
  let rest := lower.drop front.length
  front.isPrefixOf lower && !(rest.takeWhile Char.isDigit).isEmpty &&
    " insufficient".toList.isPrefixOf (rest.dropWhile Char.isDigit)

/- NODE_CLASS_DEPENDENT_STATUS, which reads the front of a status without regard to case. -/
def nodeClassDependent (status : List Char) : Bool :=
  let lower := status.map Char.toLower
  "unverified".toList.isPrefixOf lower || "invalid: insufficient".toList.isPrefixOf lower ||
    sectionInsufficient lower || "invalid_archive".toList.isPrefixOf lower

end Status

section Rows
variable (js : Builtins)

/- String(v || ''). -/
def textOr (v : Value) : String := (v.orElse (.text "")).asText

def AnchorRow.block (a : AnchorRow) : Option ℚ := (a.snapshotBlock.asNumber js).rational
def AnchorRow.action (a : AnchorRow) : Option Int := wholeNumber (a.actionIndex.asNumber js)

def isBundleSectionRow (a : AnchorRow) : Bool :=
  if a.version.asNumber js ≠ Number.ofNat 3 then true
  else if textOr a.checkpointChain = "" then false
  else a.matchBatchSeq.isNullish

def rewardFamily (rewardType : Value) : Option Family :=
  if rewardType.asText = "anchor_archive" then some .archive
  else if rewardType.asText = "anchor_bundle" then some .bundle
  else none

def rewardFamilyVersions (family : Family) (legacyDropped : Bool) : List Nat :=
  if legacyDropped then (REWARD_FAMILY_VERSIONS family).filter (fun v => v ≠ 6 && v ≠ 7)
  else REWARD_FAMILY_VERSIONS family

def isRewardCandidateRow (a : AnchorRow) (network publisher : String) : Bool :=
  let status := (textOr a.status).toList
  if deterministicInvalid status && !nodeClassDependent status then false
  else if textOr a.checkpointNetwork ≠ network then false
  else js.toLowerCase (textOr a.publisher) = publisher

structure Headers where
  byAction : OrderedMap Int ℚ
  filtered : Option ℚ

/- if(cur === undefined || b > cur) byAction.set(ai, b). -/
def raiseTo (byAction : OrderedMap Int ℚ) (ai : Int) (b : ℚ) : OrderedMap Int ℚ :=
  match byAction.get ai with
  | none => byAction.set ai b
  | some cur => if cur < b then byAction.set ai b else byAction

/- One row in the loop over the sections. -/
def headerStep (network publisher : String) (versions : List Nat) (h : Headers) (a : AnchorRow) :
    Headers :=
  if !includes versions (a.version.asNumber js) || !isBundleSectionRow js a then h
  else
    match a.block js with
    | none => h
    | some b =>
      let byAction := match a.action js with
        | none => h.byAction
        | some ai => raiseTo h.byAction ai b
      let filtered :=
        if !isRewardCandidateRow js a network publisher then h.filtered
        else match h.filtered with
          | none => some b
          | some cur => if cur < b then some b else some cur
      ⟨byAction, filtered⟩

def bundleHeaderBlocks (anchors : List AnchorRow) (network publisher : String)
    (versions : List Nat) : Headers :=
  anchors.foldl (headerStep js network publisher versions) ⟨OrderedMap.empty, none⟩

/- The header of the bundle a row belongs to; no header is equal to no block. -/
def headerOf (headers : Headers) (a : AnchorRow) : Option ℚ :=
  match (a.action js).bind headers.byAction.get with
  | some header => some header
  | none => headers.filtered

def atHeader (headers : Headers) (a : AnchorRow) : Bool :=
  match a.block js, headerOf js headers a with
  | some b, some header => b = header
  | _, _ => false

def bindsToTuple (a : AnchorRow) (t : RewardTuple) (headers : Headers) : Bool :=
  if !includes t.versions (a.version.asNumber js) then false
  else if !isRewardCandidateRow js a t.network t.publisher then false
  else if t.family = .bundle && !(isBundleSectionRow js a && atHeader js headers a) then false
  else if !strictEquals (a.snapshotBlock.asNumber js) t.snapshot then false
  else
    let seq := if t.family = .archive then a.matchBatchSeq.asNumber js
      else a.snapshotBlock.asNumber js
    strictEquals seq t.round

def tupleOf (e : Expectation) (family : Family) : RewardTuple where
  minConf := e.minConfirmations.asNumber js
  network := textOr e.network
  publisher := js.toLowerCase (textOr e.publisher)
  round := e.roundReference.asNumber js
  snapshot := e.snapshotBlock.asNumber js
  family := family
  versions := rewardFamilyVersions family (e.legacyDropped = .bool true)

def headersFor (anchors : List AnchorRow) (t : RewardTuple) : Headers :=
  match t.family with
  | .archive => ⟨OrderedMap.empty, none⟩
  | .bundle => bundleHeaderBlocks js anchors t.network t.publisher t.versions

def attested (a : AnchorRow) : Bool := includes ATTESTED_VERSIONS (a.version.asNumber js)

def judgeRows (t : RewardTuple) (headers : Headers) : Bool → List AnchorRow → Verdict
  | sawAttested, [] => if sawAttested then .rejected else .unknown
  | sawAttested, a :: rest =>
    if !attested js a then judgeRows t headers sawAttested rest
    else if !bindsToTuple js a t headers then judgeRows t headers true rest
    else if !atLeast (a.confirmations.asNumber js) t.minConf then .unknown
    else .verified

def judgeAnchors (anchors : List AnchorRow) (e : Expectation) : Verdict :=
  match rewardFamily e.rewardType with
  | none => .rejected
  | some family =>
    let t := tupleOf js e family
    judgeRows js t (headersFor js anchors t) false anchors

end Rows

section Headers
variable {js : Builtins} {network publisher : String} {versions : List Nat} {rows more : List AnchorRow}

/- A section of the bundle at an action, with its own block. -/
structure Section (js : Builtins) (versions : List Nat) (a : AnchorRow) (ai : Int) (b : ℚ) :
    Prop where
  version : includes versions (a.version.asNumber js) = true
  bundle : isBundleSectionRow js a = true
  action : a.action js = some ai
  block : a.block js = some b

/- The highest block among the sections of an action. -/
def Highest (js : Builtins) (versions : List Nat) (rows : List AnchorRow) (ai : Int) (b : ℚ) : Prop :=
  (∃ a ∈ rows, Section js versions a ai b) ∧
    ∀ a ∈ rows, ∀ c, Section js versions a ai c → c ≤ b

/- What a reconstruction has of the rows seen so far. -/
structure Reconstructs (js : Builtins) (versions : List Nat) (seen : List AnchorRow)
    (byAction : OrderedMap Int ℚ) : Prop where
  highest : ∀ ai b, byAction.get ai = some b → Highest js versions seen ai b
  complete : ∀ a ∈ seen, ∀ ai b, Section js versions a ai b → byAction.get ai ≠ none

theorem highest_unique {ai : Int} {b c : ℚ} (one : Highest js versions rows ai b)
    (two : Highest js versions rows ai c) : b = c := by
  obtain ⟨a, inside, here⟩ := one.1
  obtain ⟨a', inside', here'⟩ := two.1
  exact le_antisymm (two.2 a inside b here) (one.2 a' inside' c here')

theorem section_same {a : AnchorRow} {ai ai' : Int} {b b' : ℚ}
    (one : Section js versions a ai b) (two : Section js versions a ai' b') : ai = ai' ∧ b = b' :=
  ⟨Option.some.inj (one.action.symm.trans two.action),
    Option.some.inj (one.block.symm.trans two.block)⟩

theorem get_raise_other {byAction : OrderedMap Int ℚ} {ai other : Int} {b : ℚ} (apart : other ≠ ai) :
    (raiseTo byAction ai b).get other = byAction.get other := by
  unfold raiseTo
  split
  · exact OrderedMap.get_set_other apart
  · split
    · exact OrderedMap.get_set_other apart
    · rfl

theorem get_raise_same {byAction : OrderedMap Int ℚ} {ai : Int} {b : ℚ} :
    ∃ top, (raiseTo byAction ai b).get ai = some top ∧ b ≤ top ∧
      (top = b ∨ byAction.get ai = some top) ∧ ∀ cur, byAction.get ai = some cur → cur ≤ top := by
  unfold raiseTo
  cases held : byAction.get ai with
  | none => exact ⟨b, OrderedMap.get_set_same .., le_refl b, Or.inl rfl, by simp⟩
  | some cur =>
    dsimp only
    split
    · rename_i higher
      refine ⟨b, OrderedMap.get_set_same .., le_refl b, Or.inl rfl, ?_⟩
      rintro _ ⟨⟩
      exact le_of_lt higher
    · rename_i lower
      refine ⟨cur, held, not_lt.mp lower, Or.inr rfl, ?_⟩
      rintro _ ⟨⟩
      exact le_refl cur

theorem Reconstructs.skip {byAction : OrderedMap Int ℚ} {a : AnchorRow}
    (sofar : Reconstructs js versions rows byAction) (no : ∀ ai b, ¬Section js versions a ai b) :
    Reconstructs js versions (rows ++ [a]) byAction := by
  constructor
  case highest =>
    intro ai b held
    obtain ⟨⟨x, inside, here⟩, top⟩ := sofar.highest ai b held
    refine ⟨⟨x, by simp [inside], here⟩, ?_⟩
    intro y member c piece
    rcases List.mem_append.mp member with old | new
    · exact top y old c piece
    · exact absurd (List.mem_singleton.mp new ▸ piece) (no ai c)
  case complete =>
    intro y member ai b piece
    rcases List.mem_append.mp member with old | new
    · exact sofar.complete y old ai b piece
    · exact absurd (List.mem_singleton.mp new ▸ piece) (no ai b)

theorem Reconstructs.raise {byAction : OrderedMap Int ℚ} {a : AnchorRow} {ai : Int} {b : ℚ}
    (sofar : Reconstructs js versions rows byAction) (new : Section js versions a ai b) :
    Reconstructs js versions (rows ++ [a]) (raiseTo byAction ai b) := by
  constructor
  case highest =>
    intro ai' c held
    by_cases same : ai' = ai
    · rw [same] at held ⊢
      obtain ⟨top, put, above, source, beyond⟩ := @get_raise_same byAction ai b
      rw [put, Option.some.injEq] at held
      rw [← held]
      constructor
      · rcases source with own | before
        · exact ⟨a, by simp, own ▸ new⟩
        · obtain ⟨⟨x, inside, here⟩, _⟩ := sofar.highest ai top before
          exact ⟨x, by simp [inside], here⟩
      · intro y member d piece
        rcases List.mem_append.mp member with old | last
        · cases cur : byAction.get ai with
          | none => exact absurd cur (sofar.complete y old ai d piece)
          | some h => exact ((sofar.highest ai h cur).2 y old d piece).trans (beyond h cur)
        · rw [List.mem_singleton.mp last] at piece
          exact (section_same piece new).2.trans_le above
    · rw [get_raise_other same] at held
      obtain ⟨⟨x, inside, here⟩, top⟩ := sofar.highest ai' c held
      refine ⟨⟨x, by simp [inside], here⟩, ?_⟩
      intro y member d piece
      rcases List.mem_append.mp member with old | last
      · exact top y old d piece
      · exact absurd (section_same (List.mem_singleton.mp last ▸ piece) new).1 same
  case complete =>
    intro y member ai' c piece
    by_cases same : ai' = ai
    · obtain ⟨top, put, _⟩ := @get_raise_same byAction ai b
      rw [same, put]
      exact Option.some_ne_none top
    · rw [get_raise_other same]
      rcases List.mem_append.mp member with old | last
      · exact sofar.complete y old ai' c piece
      · exact absurd (section_same (List.mem_singleton.mp last ▸ piece) new).1 same

/-- One row of the loop, which raises its own action's header if it is a section. -/
theorem header_step {h : Headers} {a : AnchorRow} (sofar : Reconstructs js versions rows h.byAction) :
    Reconstructs js versions (rows ++ [a])
      (headerStep js network publisher versions h a).byAction := by
  unfold headerStep
  split
  · rename_i out
    refine sofar.skip ?_
    intro ai b piece
    simp [piece.version, piece.bundle] at out
  · rename_i inside
    simp only [Bool.or_eq_true, Bool.not_eq_true', not_or, Bool.not_eq_false] at inside
    split
    · rename_i blockless
      refine sofar.skip ?_
      intro ai b piece
      rw [piece.block] at blockless
      cases blockless
    · rename_i b block
      dsimp only
      split
      · rename_i nameless
        refine sofar.skip ?_
        intro ai b piece
        rw [piece.action] at nameless
        cases nameless
      · rename_i ai action
        exact sofar.raise ⟨inside.1, inside.2, action, block⟩

theorem headers_reconstruct (network publisher : String) :
    Reconstructs js versions rows (bundleHeaderBlocks js rows network publisher versions).byAction := by
  have along (seen rest : List AnchorRow) (h : Headers)
      (sofar : Reconstructs js versions seen h.byAction) :
      Reconstructs js versions (seen ++ rest)
        (rest.foldl (headerStep js network publisher versions) h).byAction := by
    induction rest generalizing seen h with
    | nil => simpa using sofar
    | cons a rest ih =>
      have next := ih (seen ++ [a]) _ (@header_step _ network publisher _ _ _ _ sofar)
      simpa using next
  exact along [] rows _ ⟨by simp, by simp⟩

/-- The header of an identified section is the highest block of its action. -/
theorem at_header_iff {a : AnchorRow} {ai : Int} {b : ℚ} (inside : a ∈ rows)
    (own : Section js versions a ai b) :
    atHeader js (bundleHeaderBlocks js rows network publisher versions) a = true ↔
      ∀ x ∈ rows, ∀ c, Section js versions x ai c → c ≤ b := by
  have whole := @headers_reconstruct js versions rows network publisher
  cases held : (bundleHeaderBlocks js rows network publisher versions).byAction.get ai with
  | none => exact absurd held (whole.complete a inside ai b own)
  | some top =>
    have high := whole.highest ai top held
    simp only [atHeader, headerOf, own.block, own.action, Option.bind_some, held,
      decide_eq_true_eq]
    constructor
    · rintro rfl
      exact high.2
    · intro beyond
      exact highest_unique ⟨⟨a, inside, own⟩, beyond⟩ high

end Headers

section Judging
variable {js : Builtins} {t : RewardTuple} {rows more : List AnchorRow} {a : AnchorRow}

def Identified (js : Builtins) (rows : List AnchorRow) : Prop := ∀ a ∈ rows, (a.action js).isSome

/- All rows of one transaction are buried alike. -/
def Level (js : Builtins) (rows : List AnchorRow) : Prop :=
  ∀ a ∈ rows, ∀ b ∈ rows, a.confirmations.asNumber js = b.confirmations.asNumber js

/- The terms of the binding that read nothing but the row. -/
def fits (js : Builtins) (a : AnchorRow) (t : RewardTuple) : Bool :=
  includes t.versions (a.version.asNumber js) &&
    isRewardCandidateRow js a t.network t.publisher &&
    strictEquals (a.snapshotBlock.asNumber js) t.snapshot &&
    strictEquals (if t.family = .archive then a.matchBatchSeq.asNumber js
      else a.snapshotBlock.asNumber js) t.round

/- No section of the row's action stands above it. -/
def Heads (js : Builtins) (t : RewardTuple) (rows : List AnchorRow) (a : AnchorRow) : Prop :=
  ∃ ai b, Section js t.versions a ai b ∧ ∀ x ∈ rows, ∀ c, Section js t.versions x ai c → c ≤ b

def Proves (js : Builtins) (t : RewardTuple) (rows : List AnchorRow) (a : AnchorRow) : Prop :=
  attested js a = true ∧ fits js a t = true ∧ (t.family = .bundle → Heads js t rows a)

theorem binds_eq (headers : Headers) :
    bindsToTuple js a t headers = (fits js a t &&
      (t.family ≠ .bundle || (isBundleSectionRow js a && atHeader js headers a))) := by
  unfold bindsToTuple fits
  dsimp only
  by_cases version : includes t.versions (a.version.asNumber js) = true
  · by_cases candidate : isRewardCandidateRow js a t.network t.publisher = true
    · by_cases family : t.family = .bundle
      · by_cases placed : (isBundleSectionRow js a && atHeader js headers a) = true
        · simp [version, candidate, family, placed]
        · simp [version, candidate, family, placed]
      · simp [version, candidate, family]
    · simp [version, candidate]
  · simp [version]

theorem proves_iff (named : (a.action js).isSome) (inside : a ∈ rows) :
    attested js a = true ∧ bindsToTuple js a t (headersFor js rows t) = true ↔
      Proves js t rows a := by
  rw [binds_eq, Proves, Bool.and_eq_true]
  refine and_congr_right fun _ => and_congr_right fun fit => ?_
  by_cases family : t.family = .bundle
  · simp only [family, ne_eq, not_true_eq_false, decide_false, Bool.false_or, forall_const,
      headersFor, Bool.and_eq_true]
    obtain ⟨ai, action⟩ := Option.isSome_iff_exists.mp named
    have version : includes t.versions (a.version.asNumber js) = true := by
      simp only [fits, Bool.and_eq_true] at fit
      exact fit.1.1.1
    constructor
    · rintro ⟨piece, placed⟩
      cases block : a.block js with
      | none => simp [atHeader, block] at placed
      | some b =>
        have own : Section js t.versions a ai b := ⟨version, piece, action, block⟩
        exact ⟨ai, b, own, (at_header_iff inside own).mp placed⟩
    · rintro ⟨ai, b, own, beyond⟩
      exact ⟨own.bundle, (at_header_iff inside own).mpr beyond⟩
  · simp [family]

theorem judge_rows_cases {headers : Headers} (saw : Bool) (rows : List AnchorRow) :
    (∃ a ∈ rows, (attested js a = true ∧ bindsToTuple js a t headers = true) ∧
      judgeRows js t headers saw rows =
        if atLeast (a.confirmations.asNumber js) t.minConf then .verified else .unknown) ∨
    ((∀ a ∈ rows, ¬(attested js a = true ∧ bindsToTuple js a t headers = true)) ∧
      judgeRows js t headers saw rows =
        if saw || rows.any (attested js) then .rejected else .unknown) := by
  induction rows generalizing saw with
  | nil => simp [judgeRows]
  | cons a rest ih =>
    by_cases seen : attested js a = true
    · by_cases binds : bindsToTuple js a t headers = true
      · refine Or.inl ⟨a, by simp, ⟨seen, binds⟩, ?_⟩
        simp only [judgeRows, seen, binds, Bool.not_true, Bool.false_eq_true, if_false]
        split <;> simp_all
      · rcases ih true with ⟨x, inside, both, verdict⟩ | ⟨none, verdict⟩
        · refine Or.inl ⟨x, by simp [inside], both, ?_⟩
          simpa [judgeRows, seen, binds] using verdict
        · refine Or.inr ⟨?_, ?_⟩
          · intro x inside
            rcases List.mem_cons.mp inside with rfl | later
            · simp [binds]
            · exact none x later
          · simpa [judgeRows, seen, binds] using verdict
    · rcases ih saw with ⟨x, inside, both, verdict⟩ | ⟨none, verdict⟩
      · refine Or.inl ⟨x, by simp [inside], both, ?_⟩
        simpa [judgeRows, seen] using verdict
      · refine Or.inr ⟨?_, ?_⟩
        · intro x inside
          rcases List.mem_cons.mp inside with rfl | later
          · simp [seen]
          · exact none x later
        · simpa [judgeRows, seen] using verdict

def deepEnough (js : Builtins) (t : RewardTuple) (a : AnchorRow) : Prop :=
  atLeast (a.confirmations.asNumber js) t.minConf = true

/-- One deep row that proves the tuple settles it, whatever else is there. -/
theorem judge_of_proves (level : Level js rows) (inside : a ∈ rows) (named : (a.action js).isSome)
    (proves : Proves js t rows a) (deep : deepEnough js t a) :
    judgeRows js t (headersFor js rows t) false rows = .verified := by
  rcases judge_rows_cases false rows with
    ⟨b, member, _, verdict⟩ | ⟨none, _⟩
  · rw [verdict, level b member a inside]
    exact if_pos deep
  · exact absurd ((proves_iff named inside).mpr proves) (none a inside)

theorem judge_verified (identified : Identified js rows) (level : Level js rows) :
    judgeRows js t (headersFor js rows t) false rows = .verified ↔
      ∃ a ∈ rows, Proves js t rows a ∧ deepEnough js t a := by
  constructor
  · intro verified
    rcases judge_rows_cases false rows with
      ⟨a, inside, both, verdict⟩ | ⟨none, verdict⟩
    · refine ⟨a, inside, (proves_iff (identified a inside) inside).mp both, ?_⟩
      by_contra shallow
      unfold deepEnough at shallow
      rw [verdict, if_neg shallow] at verified
      cases verified
    · rw [verdict] at verified
      split at verified <;> cases verified
  · rintro ⟨a, inside, proves, deep⟩
    exact judge_of_proves level inside (identified a inside) proves deep

theorem judge_rejected (identified : Identified js rows) :
    judgeRows js t (headersFor js rows t) false rows = .rejected ↔
      (∃ a ∈ rows, attested js a = true) ∧ ∀ a ∈ rows, ¬Proves js t rows a := by
  rcases judge_rows_cases false rows with
    ⟨a, inside, both, verdict⟩ | ⟨none, verdict⟩
  · rw [verdict]
    have proves := (proves_iff (identified a inside) inside).mp both
    constructor
    · intro absurd_
      split at absurd_ <;> cases absurd_
    · rintro ⟨_, nothing⟩
      exact absurd proves (nothing a inside)
  · rw [verdict, Bool.false_or]
    have nothing : ∀ a ∈ rows, ¬Proves js t rows a :=
      fun b member proves => none b member ((proves_iff (identified b member) member).mpr proves)
    constructor
    · intro rejected
      refine ⟨?_, nothing⟩
      by_contra unseen
      rw [if_neg (by simpa using unseen)] at rejected
      cases rejected
    · rintro ⟨seen, _⟩
      exact if_pos (List.any_eq_true.mpr seen)

theorem verdict_ext {v w : Verdict} (verified : v = .verified ↔ w = .verified)
    (rejected : v = .rejected ↔ w = .rejected) : v = w := by
  cases v <;> cases w <;> simp at verified rejected ⊢

/- Rows that differ in nothing the rule tells apart. -/
structure Alike (js : Builtins) (a b : AnchorRow) : Prop where
  version : a.version = b.version
  chain : a.checkpointChain = b.checkpointChain
  batch : a.matchBatchSeq = b.matchBatchSeq
  block : a.snapshotBlock = b.snapshotBlock
  action : a.actionIndex = b.actionIndex
  confirmations : a.confirmations = b.confirmations
  candidate : ∀ network publisher, isRewardCandidateRow js a network publisher =
    isRewardCandidateRow js b network publisher

theorem Alike.refl (a : AnchorRow) : Alike js a a := ⟨rfl, rfl, rfl, rfl, rfl, rfl, fun _ _ => rfl⟩

theorem Alike.symm {b : AnchorRow} (alike : Alike js a b) : Alike js b a :=
  ⟨alike.version.symm, alike.chain.symm, alike.batch.symm, alike.block.symm, alike.action.symm,
    alike.confirmations.symm, fun network publisher => (alike.candidate network publisher).symm⟩

theorem Alike.section_ {b : AnchorRow} {versions : List Nat} {ai : Int} {c : ℚ}
    (alike : Alike js a b) (own : Section js versions a ai c) : Section js versions b ai c := by
  refine ⟨?_, ?_, ?_, ?_⟩
  · exact alike.version ▸ own.version
  · have same : isBundleSectionRow js b = isBundleSectionRow js a := by
      simp only [isBundleSectionRow, alike.version, alike.chain, alike.batch]
    rw [same]
    exact own.bundle
  · have same : b.action js = a.action js := by simp only [AnchorRow.action, alike.action]
    rw [same]
    exact own.action
  · have same : b.block js = a.block js := by simp only [AnchorRow.block, alike.block]
    rw [same]
    exact own.block

/- Every row of one list has its like in the other. -/
def Mirrors (js : Builtins) (rows more : List AnchorRow) : Prop :=
  ∀ a ∈ rows, ∃ b ∈ more, Alike js a b

theorem Proves.mirrored {b : AnchorRow} (alike : Alike js a b) (back : Mirrors js more rows)
    (proves : Proves js t rows a) : Proves js t more b := by
  obtain ⟨seen, fit, heads⟩ := proves
  refine ⟨?_, ?_, ?_⟩
  · exact (show attested js b = attested js a by simp only [attested, alike.version]) ▸ seen
  · have same : fits js b t = fits js a t := by
      simp only [fits, alike.version, alike.block, alike.batch, alike.candidate]
    rw [same]
    exact fit
  · intro family
    obtain ⟨ai, c, own, beyond⟩ := heads family
    refine ⟨ai, c, alike.section_ own, ?_⟩
    intro x inside d piece
    obtain ⟨y, member, like⟩ := back x inside
    exact beyond y member d (like.section_ piece)

/-- Rows that mirror each other are judged alike. -/
theorem judge_mirrored (identified : Identified js rows) (level : Level js rows)
    (identified' : Identified js more) (level' : Level js more) (forth : Mirrors js rows more)
    (back : Mirrors js more rows) :
    judgeRows js t (headersFor js rows t) false rows =
      judgeRows js t (headersFor js more t) false more := by
  refine verdict_ext ?_ ?_
  · rw [judge_verified identified level, judge_verified identified' level']
    constructor
    · rintro ⟨a, inside, proves, deep⟩
      obtain ⟨b, member, alike⟩ := forth a inside
      refine ⟨b, member, proves.mirrored alike back, ?_⟩
      unfold deepEnough at deep ⊢
      exact alike.confirmations ▸ deep
    · rintro ⟨b, inside, proves, deep⟩
      obtain ⟨a, member, alike⟩ := back b inside
      refine ⟨a, member, proves.mirrored alike forth, ?_⟩
      unfold deepEnough at deep ⊢
      exact alike.confirmations ▸ deep
  · rw [judge_rejected identified, judge_rejected identified']
    constructor
    · rintro ⟨⟨a, inside, seen⟩, nothing⟩
      obtain ⟨b, member, alike⟩ := forth a inside
      refine ⟨⟨b, member, ?_⟩, ?_⟩
      · unfold attested at seen ⊢
        exact alike.version ▸ seen
      · intro x within proves
        obtain ⟨y, there, like⟩ := back x within
        exact nothing y there (proves.mirrored like forth)
    · rintro ⟨⟨b, inside, seen⟩, nothing⟩
      obtain ⟨a, member, alike⟩ := back b inside
      refine ⟨⟨a, member, ?_⟩, ?_⟩
      · unfold attested at seen ⊢
        exact alike.version ▸ seen
      · intro x within proves
        obtain ⟨y, there, like⟩ := forth x within
        exact nothing y there (proves.mirrored like back)

end Judging

section Strangers
variable {js : Builtins} {rows more extended : List AnchorRow} {a : AnchorRow}

/-- A status that divides the fleet is no evidence, so any other one is as good. -/
theorem alike_of_node_class {status : Value}
    (old : nodeClassDependent (textOr a.status).toList = true)
    (new : nodeClassDependent (textOr status).toList = true) :
    Alike js a { a with status := status } := by
  refine ⟨rfl, rfl, rfl, rfl, rfl, rfl, ?_⟩
  intro network publisher
  simp [isRewardCandidateRow, old, new]

theorem mirrors_perm (same : rows.Perm more) : Mirrors js rows more :=
  fun a inside => ⟨a, same.subset inside, Alike.refl a⟩

theorem mirrors_set {k : Nat} {b : AnchorRow} (found : rows[k]? = some a) (alike : Alike js a b) :
    Mirrors js rows (rows.set k b) ∧ Mirrors js (rows.set k b) rows := by
  have inside : k < rows.length := (List.getElem?_eq_some_iff.mp found).1
  constructor
  · intro x member
    obtain ⟨i, here⟩ := List.mem_iff_getElem?.mp member
    by_cases same : i = k
    · rw [same, found, Option.some.injEq] at here
      exact ⟨b, List.mem_set inside b, here ▸ alike⟩
    · refine ⟨x, List.mem_iff_getElem?.mpr ⟨i, ?_⟩, Alike.refl x⟩
      rw [List.getElem?_set_ne (Ne.symm same), here]
  · intro x member
    rcases List.mem_or_eq_of_mem_set member with old | rfl
    · exact ⟨x, old, Alike.refl x⟩
    · exact ⟨a, List.mem_of_getElem? found, alike.symm⟩

/-- For any reward and any rows of one transaction that name their actions: the order of the rows
    does not matter, nor which of the statuses that divide the fleet a row has, and rows of other
    actions take no proof away. -/
theorem strangers_change_nothing (js : Builtins) (e : Expectation) (rows : List AnchorRow)
    (identified : Identified js rows) (level : Level js rows) :
    (∀ order, rows.Perm order → judgeAnchors js order e = judgeAnchors js rows e) ∧
    (∀ k a status, rows[k]? = some a → nodeClassDependent (textOr a.status).toList = true →
      nodeClassDependent (textOr status).toList = true →
      judgeAnchors js (rows.set k { a with status := status }) e = judgeAnchors js rows e) ∧
    (judgeAnchors js rows e = .verified → ∀ more extended, extended.Perm (rows ++ more) →
      Level js extended →
      (∀ a ∈ rows, ∀ b ∈ more, b.action js ≠ a.action js) →
      judgeAnchors js extended e = .verified) := by
  unfold judgeAnchors
  cases family : rewardFamily e.rewardType with
  | none => simp
  | some family =>
    dsimp only
    refine ⟨?_, ?_, ?_⟩
    · intro order same
      have named : Identified js order := fun a inside => identified a (same.symm.subset inside)
      have even : Level js order :=
        fun a inside b inside' => level a (same.symm.subset inside) b (same.symm.subset inside')
      exact judge_mirrored named even identified level (mirrors_perm same.symm) (mirrors_perm same)
    · intro k a status found old new
      obtain ⟨forth, back⟩ := mirrors_set found (@alike_of_node_class js _ _ old new)
      have named : Identified js (rows.set k { a with status := status }) := by
        intro x inside
        obtain ⟨y, member, alike⟩ := back x inside
        have same : x.action js = y.action js := by simp only [AnchorRow.action, alike.action]
        rw [same]
        exact identified y member
      have even : Level js (rows.set k { a with status := status }) := by
        intro x inside y inside'
        obtain ⟨x', member, alike⟩ := back x inside
        obtain ⟨y', member', alike'⟩ := back y inside'
        rw [alike.confirmations, alike'.confirmations]
        exact level x' member y' member'
      exact judge_mirrored named even identified level back forth
    · intro verified more extended same even apart
      obtain ⟨a, inside, proves, deep⟩ := (judge_verified identified level).mp verified
      refine judge_of_proves even (same.symm.subset (by simp [inside])) (identified a inside) ?_ deep
      refine ⟨proves.1, proves.2.1, ?_⟩
      intro bundle
      obtain ⟨ai, c, own, beyond⟩ := proves.2.2 bundle
      refine ⟨ai, c, own, ?_⟩
      intro x member d piece
      rcases List.mem_append.mp (same.subset member) with old | new
      · exact beyond x old d piece
      · exact absurd (piece.action.trans own.action.symm) (apart a inside x new)

/- A section of a bundle, at an action and a block. -/
def sampleSection (action block : Nat) (status publisher : String) : AnchorRow where
  version := .number (Number.ofNat 0)
  checkpointChain := .text "BTC"
  matchBatchSeq := .null
  status := .text status
  checkpointNetwork := .text "testnet"
  publisher := .text publisher
  snapshotBlock := .number (Number.ofNat block)
  actionIndex := .number (Number.ofNat action)
  confirmations := .number (Number.ofNat 8)

def sampleReward : Expectation where
  rewardType := .text "anchor_bundle"
  minConfirmations := .number (Number.ofNat 6)
  network := .text "testnet"
  publisher := .text "AB"
  roundReference := .text "40"
  snapshotBlock := .number (Number.ofNat 40)
  legacyDropped := .undefined

def sampleRows : List AnchorRow :=
  [sampleSection 1 30 "valid" "ab", sampleSection 1 40 "unverified" "ab"]

def sampleStranger : AnchorRow := sampleSection 2 90 "invalid: SECTION 3 insufficient" "cd"

/-- A bundle with a lagging section, read by another class of node, and with a stranger's
    section above it on the same transaction. -/
theorem sample_strangers_change_nothing :
    judgeAnchors decimalBuiltins sampleRows.reverse sampleReward = .verified ∧
      judgeAnchors decimalBuiltins
        (sampleRows.set 1 (sampleSection 1 40 "invalid_archive" "ab")) sampleReward = .verified ∧
      judgeAnchors decimalBuiltins (sampleStranger :: sampleRows) sampleReward = .verified := by
  have identified : Identified decimalBuiltins sampleRows := by
    unfold Identified
    decide
  have level : Level decimalBuiltins sampleRows := by
    unfold Level
    decide
  have even : Level decimalBuiltins (sampleStranger :: sampleRows) := by
    unfold Level
    decide
  have verified : judgeAnchors decimalBuiltins sampleRows sampleReward = .verified := by
    decide +kernel
  obtain ⟨ordered, statuses, strangers⟩ :=
    strangers_change_nothing decimalBuiltins sampleReward sampleRows identified level
  refine ⟨?_, ?_, ?_⟩
  · rw [ordered _ (List.reverse_perm _).symm]
    exact verified
  · have same := statuses 1 (sampleSection 1 40 "unverified" "ab") (.text "invalid_archive") rfl
      (by decide) (by decide)
    exact same.trans verified
  · exact strangers verified [sampleStranger] _ (List.perm_append_singleton _ _).symm
      even (by decide)

end Strangers
end XChainHub.Anchor.AnchorProofBinding
