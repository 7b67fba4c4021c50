import Mathlib.Data.List.Sort
import XChainHub.Consensus.StakeWeightedQuorum
import XChainHub.CrossChain.Bridge.Legs
import XChainHub.Library.ScriptOrder

/-!
Penalties over recorded evidence, validators/slash_governance.js with the statements of
db/slash_proposals.js. Every database call answers, and the pubkey columns compare without
regard to case. The text is hashed as it is, so sha256 takes a text to its hexadecimal digest.
-/
namespace XChainHub.SlashGovernance
open CrossChain.Bridge (intText int_text_plain int_text_inj)
open HexText (LowerHex isLowerHex isHexDigit)
open StakeWeightedQuorum (asciiLower)

section Evidence

/- The offense types that callers of recordSlashProposal() name. -/
inductive Offense where
  | priceDeviation
  | repeatedDeviation
  | nonParticipation
  | attestationDivergence
  | attestationSpotCheckFailure
  deriving DecidableEq

def Offense.text : Offense → String
  | .priceDeviation => "price_deviation"
  | .repeatedDeviation => "repeated_deviation"
  | .nonParticipation => "non_participation"
  | .attestationDivergence => "attestation_divergence"
  | .attestationSpotCheckFailure => "attestation_spot_check_failure"

inductive Status where
  | pending
  | approved
  | rejected
  | expired
  deriving DecidableEq

structure Row where
  id : ℕ
  validatorPubkey : String
  offenseType : Offense
  roundNumber : Option ℤ
  evidence : Option String
  status : Status
  deriving DecidableEq

/- slash_proposals in the order of its AUTO_INCREMENT ids. -/
structure Table where
  rows : List Row
  nextId : ℕ
  ordered : rows.Pairwise (fun a b => a.id < b.id)
  fresh : ∀ r ∈ rows, r.id < nextId

def Table.empty : Table := ⟨[], 0, List.Pairwise.nil, by simp⟩

def Table.createSlashProposal (t : Table) (validatorPubkey : String) (offenseType : Offense)
    (round : Option ℤ) (evidence : Option String) : Table where
  rows := t.rows ++ [⟨t.nextId, validatorPubkey, offenseType, round, evidence, .pending⟩]
  nextId := t.nextId + 1
  ordered := List.pairwise_append.mpr ⟨t.ordered, List.pairwise_singleton _ _, by
    intro a member b last
    rw [List.mem_singleton.mp last]
    exact t.fresh a member⟩
  fresh := by
    intro r member
    rcases List.mem_append.mp member with old | new
    · exact Nat.lt_succ_of_lt (t.fresh r old)
    · rw [List.mem_singleton.mp new]
      exact Nat.lt_succ_self _

def recordSlashProposal (t : Table) (validatorPubkey : String) (offenseType : Offense)
    (round : Option ℤ) (evidence : Option String) : Bool × Table :=
  if validatorPubkey.toList.length = 64 ∧ validatorPubkey.toList.all isHexDigit = true then
    (true, t.createSlashProposal validatorPubkey offenseType round evidence)
  else (false, t)

/- WHERE validator_pubkey = ? AND status = 'pending' ORDER BY id ASC. -/
def isPending (pk : String) (r : Row) : Bool :=
  asciiLower r.validatorPubkey = asciiLower pk && r.status = .pending

def pendingRows (t : Table) (pk : String) : List Row := t.rows.filter (isPending pk)

def settle (newStatus : Status) (r : Row) : Row := { r with status := newStatus }

def Table.settleRows (t : Table) (newStatus : Status) (chosen : Row → Bool) : Table where
  rows := t.rows.map (fun r => if chosen r then settle newStatus r else r)
  nextId := t.nextId
  ordered := by
    rw [List.pairwise_map]
    refine t.ordered.imp ?_
    intro a b before
    split <;> split <;> exact before
  fresh := by
    intro r member
    obtain ⟨old, held, rfl⟩ := List.mem_map.mp member
    split <;> exact t.fresh old held

def updateSlashProposalsStatusByIds (t : Table) (newStatus : Status) (pk : String) (ids : List ℕ) :
    ℕ × Table :=
  let chosen := fun r : Row => isPending pk r && decide (r.id ∈ ids)
  (t.rows.countP chosen, t.settleRows newStatus chosen)

end Evidence

section Hash
variable (sha256 : String → String)

def roundText : Option ℤ → String
  | none => ""
  | some n => String.ofList (intText n)

/- What an offense is, whichever hub recorded it. -/
structure Identity where
  validatorPubkey : String
  offenseType : Offense
  roundNumber : Option ℤ
  evidence : String
  deriving DecidableEq

def Row.identity (r : Row) : Identity :=
  ⟨asciiLower r.validatorPubkey, r.offenseType, r.roundNumber, r.evidence.getD ""⟩

def Identity.key (e : Identity) : String :=
  String.intercalate "|"
    [e.validatorPubkey, e.offenseType.text, roundText e.roundNumber, sha256 e.evidence]

def inOrder (a b : String) : Prop := ScriptValue.textLess b a = false

instance : DecidableRel inOrder := fun a b =>
  inferInstanceAs (Decidable (ScriptValue.textLess b a = false))

/- The sorted keys, joined line by line. -/
def evidenceText (rows : List Row) : String :=
  String.intercalate "\n" ((rows.map (fun r => r.identity.key sha256)).insertionSort inOrder)

def computeEvidenceHash (rows : List Row) : String := sha256 (evidenceText sha256 rows)

end Hash

section Penalties

def slashPenaltyPrefix : String := "SLASH_PENALTY:"

inductive Penalty where
  | suspend
  | dismiss
  deriving DecidableEq

def Penalty.text : Penalty → String
  | .suspend => "suspend"
  | .dismiss => "dismiss"

def readPenalty (text : String) : Option Penalty :=
  if text = "suspend" then some .suspend
  else if text = "dismiss" then some .dismiss
  else none

structure Parsed where
  validatorPubkey : String
  evidenceHash : String
  deriving DecidableEq

def parseSlashPenaltyParam (parameter : String) : Option Parsed :=
  match List.isPrefixOf? slashPenaltyPrefix.toList parameter.toList with
  | none => none
  | some rest =>
    match (rest.map Char.toLower).splitOn ':' with
    | [pk, hash] =>
      let parsed : Parsed := ⟨String.ofList pk, String.ofList hash⟩
      if LowerHex 64 parsed.validatorPubkey ∧ LowerHex 64 parsed.evidenceHash then some parsed
      else none
    | _ => none

structure Proposal where
  validatorPubkey : String
  penalty : Penalty
  evidenceHash : String
  evidenceRows : ℕ
  parameter : String

/- What a hub proposes to its governance; the rationale is left out. -/
def proposeSlashPenalty (sha256 : String → String) (t : Table) (validatorPubkey penalty : String) :
    Except String Proposal :=
  let pk := asciiLower validatorPubkey
  if ¬ LowerHex 64 pk then .error "Invalid validator pubkey (must be 64 hex chars)"
  else
    match readPenalty penalty with
    | none => .error "penalty must be one of: suspend, dismiss"
    | some action =>
      let rows := pendingRows t pk
      if rows.length = 0 then
        .error ("No pending slash_proposals evidence for validator " ++ pk)
      else
        let evidenceHash := computeEvidenceHash sha256 rows
        .ok ⟨pk, action, evidenceHash, rows.length,
          slashPenaltyPrefix ++ pk ++ ":" ++ evidenceHash⟩

structure Finalized where
  parameter : String
  newValue : String

/- The registry row of a validator, as signing key and whether it is active. -/
abbrev Registry := List (String × Bool)

structure Hub where
  evidence : Table
  validators : Registry

structure Summary where
  validatorPubkey : String
  penalty : Penalty
  evidenceRowsUpdated : ℕ
  suspended : Bool
  deriving DecidableEq

def Penalty.newStatus : Penalty → Status
  | .suspend => .approved
  | .dismiss => .rejected

section Execution
variable (sha256 : String → String)

/- The first k rows, or the longest shorter prefix, that hash to the voted hash. -/
def matchPrefix (rows : List Row) (votedHash : String) : ℕ → Option (List Row)
  | 0 => none
  | k + 1 =>
    if computeEvidenceHash sha256 (rows.take (k + 1)) = votedHash then some (rows.take (k + 1))
    else matchPrefix rows votedHash k

def matchVotedRows (rows : List Row) (votedHash : String) : Option (List Row) :=
  matchPrefix sha256 rows votedHash rows.length

/- none is the dismissal that executes nothing. -/
def sweepVotedEvidence (t : Table) (parsed : Parsed) (penalty : Penalty) (rows : List Row) :
    Option ℕ × Table :=
  match matchVotedRows sha256 rows parsed.evidenceHash with
  | some voted =>
    let marked := updateSlashProposalsStatusByIds t penalty.newStatus parsed.validatorPubkey
      (voted.map Row.id)
    (some marked.1, marked.2)
  | none => (if penalty = .dismiss then none else some 0, t)

def isActive (pk : String) (v : String × Bool) : Bool := asciiLower v.1 = asciiLower pk && v.2

def updateValidatorBySigningPubkey (validators : Registry) (pk : String) : Bool × Registry :=
  (validators.any (isActive pk),
    validators.map (fun v => if isActive pk v then (v.1, false) else v))

def applyFinalized (hub : Hub) (ev : Finalized) : Option Summary × Hub :=
  if ev.parameter = "" then (none, hub)
  else
    match parseSlashPenaltyParam ev.parameter with
    | none => (none, hub)
    | some parsed =>
      match readPenalty (asciiLower ev.newValue) with
      | none => (none, hub)
      | some penalty =>
        let pk := parsed.validatorPubkey
        let swept := sweepVotedEvidence sha256 hub.evidence parsed penalty
          (pendingRows hub.evidence pk)
        match swept.1 with
        | none => (some ⟨pk, penalty, 0, false⟩, hub)
        | some marked =>
          if penalty = .suspend then
            let suspended := updateValidatorBySigningPubkey hub.validators pk
            (some ⟨pk, penalty, marked, suspended.1⟩, ⟨swept.2, suspended.2⟩)
          else (some ⟨pk, penalty, marked, false⟩, { hub with evidence := swept.2 })

end Execution
end Penalties

section Texts
open DelimitedText

/- A text that a bar or a line end cannot be part of. -/
def Unbroken (s : String) : Prop := '|' ∉ s.toList ∧ '\n' ∉ s.toList

theorem lower_hex_unbroken {n : ℕ} {s : String} (hex : LowerHex n s) : Unbroken s :=
  ⟨hex.plain, fun line => absurd (hex.2 '\n' line) (by decide)⟩

theorem offense_text_unbroken (o : Offense) : Unbroken o.text := by
  cases o <;> exact ⟨by decide, by decide⟩

theorem offense_text_inj {a b : Offense} (same : a.text = b.text) : a = b := by
  cases a <;> cases b <;> first | rfl | exact absurd same (by decide)

theorem int_text_filled (z : ℤ) : intText z ≠ [] := by
  unfold intText
  split
  · exact List.cons_ne_nil _ _
  · exact Nat.toDigits_ne_nil

theorem int_text_one_line (z : ℤ) : '\n' ∉ intText z := by
  have digits : '\n' ∉ Nat.toDigits 10 z.natAbs :=
    fun member => absurd (NumberText.to_digits_plain _ '\n' member) (by decide)
  unfold intText
  split
  · rw [List.mem_cons, not_or]
    exact ⟨by decide, digits⟩
  · exact digits

theorem round_text_unbroken (n : Option ℤ) : Unbroken (roundText n) := by
  cases n with
  | none => exact ⟨by decide, by decide⟩
  | some z =>
    rw [Unbroken, roundText, String.toList_ofList]
    exact ⟨int_text_plain z, int_text_one_line z⟩

theorem round_text_inj {a b : Option ℤ} (same : roundText a = roundText b) : a = b := by
  have filled : ∀ z, roundText (some z) ≠ "" := by
    intro z empty
    have chars := congrArg String.toList empty
    rw [roundText, String.toList_ofList] at chars
    exact int_text_filled z chars
  cases a with
  | none =>
    cases b with
    | none => rfl
    | some z => exact absurd same.symm (filled z)
  | some y =>
    cases b with
    | none => exact absurd same (filled y)
    | some z =>
      have chars := congrArg String.toList same
      rw [roundText, roundText, String.toList_ofList, String.toList_ofList] at chars
      rw [int_text_inj chars]

/-- Lines without a line end in them are read back from their join. -/
theorem lines_inj {a b : List String} (some_a : a ≠ []) (some_b : b ≠ [])
    (plain_a : ∀ s ∈ a, '\n' ∉ s.toList) (plain_b : ∀ s ∈ b, '\n' ∉ s.toList)
    (same : String.intercalate "\n" a = String.intercalate "\n" b) : a = b := by
  have read : ∀ lines : List String, lines ≠ [] → (∀ s ∈ lines, '\n' ∉ s.toList) →
      (String.intercalate "\n" lines).toList.splitOn '\n' = lines.map String.toList := by
    intro lines filled plain
    rw [String.toList_intercalate, show "\n".toList = ['\n'] from rfl,
      splitOn_joined '\n' (by simpa using filled), cells, List.flatMap_map]
    clear filled
    induction lines with
    | nil => rfl
    | cons s lines ih =>
      rw [List.flatMap_cons, List.map_cons, List.splitOn_eq_singleton (plain s List.mem_cons_self),
        ih (fun t member => plain t (List.mem_cons_of_mem s member)), List.singleton_append]
  have texts := read b some_b plain_b
  rw [← same, read a some_a plain_a] at texts
  exact List.map_injective_iff.mpr (fun _ _ chars => String.toList_inj.mp chars) texts

end Texts

section Identities
open DelimitedText
variable {sha256 : String → String}

def Identity.fields (sha256 : String → String) (e : Identity) : List String :=
  [e.validatorPubkey, e.offenseType.text, roundText e.roundNumber, sha256 e.evidence]

theorem fields_unbroken (hex : ∀ s, LowerHex 64 (sha256 s)) {e : Identity}
    (keyed : LowerHex 64 e.validatorPubkey) : ∀ s ∈ e.fields sha256, Unbroken s := by
  intro s member
  simp only [Identity.fields, List.mem_cons, List.not_mem_nil, or_false] at member
  rcases member with rfl | rfl | rfl | rfl
  · exact lower_hex_unbroken keyed
  · exact offense_text_unbroken _
  · exact round_text_unbroken _
  · exact lower_hex_unbroken (hex _)

theorem key_cells (hex : ∀ s, LowerHex 64 (sha256 s)) {e : Identity}
    (keyed : LowerHex 64 e.validatorPubkey) :
    barCells (e.key sha256) = (e.fields sha256).map String.toList :=
  (bar_cells_join_iff (by simp)).mpr (fun s member => (fields_unbroken hex keyed s member).1)

theorem key_one_line (hex : ∀ s, LowerHex 64 (sha256 s)) {e : Identity}
    (keyed : LowerHex 64 e.validatorPubkey) : '\n' ∉ (e.key sha256).toList := by
  have parts := fields_unbroken hex keyed
  simp only [Identity.fields, List.mem_cons, List.not_mem_nil, or_false, forall_eq_or_imp,
    forall_eq] at parts
  obtain ⟨pk, offense, round, digest⟩ := parts
  have bar : '\n' ∉ "|".toList := by decide
  simp only [Identity.key, String.intercalate_cons_cons, String.intercalate_singleton,
    String.toList_append, List.mem_append, not_or]
  exact ⟨⟨pk.2, bar⟩, ⟨offense.2, bar⟩, ⟨round.2, bar⟩, digest.2⟩

/-- Two offenses of one validator with the same key are the same offense, unless their
    evidence collides. -/
theorem key_inj (hex : ∀ s, LowerHex 64 (sha256 s)) {a b : Identity}
    (keyed_a : LowerHex 64 a.validatorPubkey) (keyed_b : LowerHex 64 b.validatorPubkey)
    (free : sha256 a.evidence = sha256 b.evidence → a.evidence = b.evidence)
    (same : a.key sha256 = b.key sha256) : a = b := by
  have cells := key_cells hex keyed_b
  rw [← same, key_cells hex keyed_a] at cells
  simp only [Identity.fields, List.map_cons, List.map_nil, List.cons.injEq, and_true,
    String.toList_inj] at cells
  obtain ⟨pk, offense, round, digest⟩ := cells
  cases a
  cases b
  simp only [Identity.mk.injEq]
  exact ⟨pk, offense_text_inj offense, round_text_inj round, free digest⟩

theorem in_order_total (a b : String) : inOrder a b ∨ inOrder b a := by
  simp only [inOrder, ScriptValue.textLess, decide_eq_false_iff_not, not_lt]
  exact le_total _ _

theorem in_order_trans {a b c : String} (first : inOrder a b) (second : inOrder b c) :
    inOrder a c := by
  simp only [inOrder, ScriptValue.textLess, decide_eq_false_iff_not, not_lt] at first second ⊢
  exact le_trans first second

instance : Std.Total inOrder := ⟨in_order_total⟩

instance : IsTrans String inOrder := ⟨fun _ _ _ => in_order_trans⟩

theorem sorted_eq_iff {a b : List String} :
    a.insertionSort inOrder = b.insertionSort inOrder ↔ a.Perm b := by
  constructor
  · intro same
    exact (List.perm_insertionSort inOrder a).symm.trans (same ▸ List.perm_insertionSort inOrder b)
  · intro perm
    apply List.Perm.eq_of_pairwise (fun x y _ _ before after =>
      ScriptValue.text_order_antisymm after before) (List.pairwise_insertionSort inOrder a)
      (List.pairwise_insertionSort inOrder b)
    exact (List.perm_insertionSort inOrder a).trans
      (perm.trans (List.perm_insertionSort inOrder b).symm)

end Identities

section Voted
variable {sha256 : String → String}

def identities (rows : List Row) : List Identity := rows.map Row.identity

/- What is hashed for the hash of any choice of the rows. -/
def hashedTexts (sha256 : String → String) (rows : List Row) : List String :=
  rows.map (fun r => r.identity.evidence) ++ rows.sublists.map (evidenceText sha256)

def CollisionFree (sha256 : String → String) (texts : List String) : Prop :=
  ∀ x ∈ texts, ∀ y ∈ texts, sha256 x = sha256 y → x = y

instance (sha256 : String → String) (texts : List String) :
    Decidable (CollisionFree sha256 texts) :=
  inferInstanceAs (Decidable (∀ x ∈ texts, ∀ y ∈ texts, sha256 x = sha256 y → x = y))

/- Rows on file against one validator. -/
def Against (pk : String) (rows : List Row) : Prop :=
  ∀ r ∈ rows, r.identity.validatorPubkey = pk

theorem perm_of_map {α β : Type} [DecidableEq α] {f : α → β} {a b : List α}
    (apart : ∀ x ∈ a, ∀ y ∈ b, f x = f y → x = y) (perm : (a.map f).Perm (b.map f)) :
    a.Perm b := by
  induction a generalizing b with
  | nil =>
    have size := perm.length_eq
    rw [List.map_nil, List.length_nil, List.length_map] at size
    rw [List.length_eq_zero_iff.mp size.symm]
  | cons x a ih =>
    have listed : f x ∈ b.map f := perm.subset (List.mem_map_of_mem List.mem_cons_self)
    obtain ⟨y, member, same⟩ := List.mem_map.mp listed
    have found := apart x List.mem_cons_self y member same.symm
    subst found
    have split := List.perm_cons_erase member
    have rest : (a.map f).Perm ((b.erase x).map f) := (perm.trans (split.map f)).cons_inv
    exact ((ih (fun z inside w left => apart z (List.mem_cons_of_mem x inside) w
      (List.mem_of_mem_erase left)) rest).cons x).trans split.symm

theorem mem_joined {sep line : String} {lines : List String} (member : line ∈ lines) {c : Char}
    (inside : c ∈ line.toList) : c ∈ (String.intercalate sep lines).toList := by
  induction lines with
  | nil => exact absurd member List.not_mem_nil
  | cons first more ih =>
    cases more with
    | nil =>
      rw [List.mem_singleton] at member
      rw [String.intercalate_singleton, ← member]
      exact inside
    | cons next more =>
      rw [String.intercalate_cons_cons, String.toList_append, String.toList_append,
        List.mem_append, List.mem_append]
      rcases List.mem_cons.mp member with rfl | later
      · exact .inl (.inl inside)
      · exact .inr (ih later)

theorem bar_in_text {r : Row} {rows : List Row} (member : r ∈ rows) :
    '|' ∈ (evidenceText sha256 rows).toList := by
  refine mem_joined ((List.mem_insertionSort inOrder).mpr (List.mem_map_of_mem member)) ?_
  simp [Identity.key, String.intercalate_cons_cons, String.toList_append]

theorem sorted_keys_filled {rows : List Row} (some_row : rows ≠ []) :
    (rows.map (fun r => r.identity.key sha256)).insertionSort inOrder ≠ [] := by
  intro none_left
  have size := (List.perm_insertionSort inOrder
    (rows.map (fun r => r.identity.key sha256))).length_eq
  rw [none_left, List.length_map] at size
  exact some_row (List.length_eq_zero_iff.mp size.symm)

theorem sorted_keys_one_line (hex : ∀ s, LowerHex 64 (sha256 s)) {rows : List Row}
    (keyed : ∀ r ∈ rows, LowerHex 64 r.identity.validatorPubkey) :
    ∀ s ∈ (rows.map (fun r => r.identity.key sha256)).insertionSort inOrder,
      '\n' ∉ s.toList := by
  intro s member
  obtain ⟨r, held, rfl⟩ := List.mem_map.mp ((List.mem_insertionSort inOrder).mp member)
  exact key_one_line hex (keyed r held)

theorem evidence_hashed {r : Row} {rows : List Row} (member : r ∈ rows) :
    r.identity.evidence ∈ hashedTexts sha256 rows :=
  List.mem_append_left _ (List.mem_map_of_mem member)

theorem choice_hashed {chosen rows : List Row} (inside : List.Sublist chosen rows) :
    evidenceText sha256 chosen ∈ hashedTexts sha256 rows :=
  List.mem_append_right _ (List.mem_map_of_mem (List.mem_sublists.mpr inside))

theorem evidence_text_perm {a b : List Row} (perm : (identities a).Perm (identities b)) :
    evidenceText sha256 a = evidenceText sha256 b := by
  have keys : (a.map (fun r => r.identity.key sha256)).Perm
      (b.map (fun r => r.identity.key sha256)) := by
    have mapped := perm.map (Identity.key sha256)
    simpa only [identities, List.map_map, Function.comp_def] using mapped
  rw [evidenceText, evidenceText, sorted_eq_iff.mpr keys]

/-- Without collisions a hash tells which offenses it was taken over. -/
theorem evidence_hash_iff (hex : ∀ s, LowerHex 64 (sha256 s)) {pk : String}
    (keyed : LowerHex 64 pk) {ours theirs a b : List Row}
    (free : CollisionFree sha256 (hashedTexts sha256 ours ++ hashedTexts sha256 theirs))
    (against_ours : Against pk ours) (against_theirs : Against pk theirs)
    (chosen_a : List.Sublist a ours) (chosen_b : List.Sublist b theirs) (filled : b ≠ []) :
    computeEvidenceHash sha256 a = computeEvidenceHash sha256 b ↔
      (identities a).Perm (identities b) := by
  constructor
  · intro same
    have texts : evidenceText sha256 a = evidenceText sha256 b :=
      free _ (List.mem_append_left _ (choice_hashed chosen_a)) _
        (List.mem_append_right _ (choice_hashed chosen_b)) same
    have some_a : a ≠ [] := by
      rintro rfl
      obtain ⟨r, more, shape⟩ := List.exists_cons_of_ne_nil filled
      have bar : '|' ∈ (evidenceText sha256 b).toList := bar_in_text (shape ▸ List.mem_cons_self)
      rw [← texts] at bar
      exact absurd bar List.not_mem_nil
    have keyed_a : ∀ r ∈ a, LowerHex 64 r.identity.validatorPubkey := by
      intro r member
      rw [against_ours r (chosen_a.subset member)]
      exact keyed
    have keyed_b : ∀ r ∈ b, LowerHex 64 r.identity.validatorPubkey := by
      intro r member
      rw [against_theirs r (chosen_b.subset member)]
      exact keyed
    have sorted := lines_inj (sorted_keys_filled some_a) (sorted_keys_filled filled)
      (sorted_keys_one_line hex keyed_a) (sorted_keys_one_line hex keyed_b) texts
    refine perm_of_map (f := Identity.key sha256) ?_ ?_
    · intro x from_a y from_b keys
      obtain ⟨r, held, rfl⟩ := List.mem_map.mp from_a
      obtain ⟨q, other, rfl⟩ := List.mem_map.mp from_b
      refine key_inj hex (keyed_a r held) (keyed_b q other) (fun digest => ?_) keys
      exact free _ (List.mem_append_left _ (evidence_hashed (chosen_a.subset held))) _
        (List.mem_append_right _ (evidence_hashed (chosen_b.subset other))) digest
    · simpa only [identities, List.map_map, Function.comp_def] using sorted_eq_iff.mp sorted
  · intro perm
    rw [computeEvidenceHash, computeEvidenceHash, evidence_text_perm perm]

end Voted

section Sweep
variable {sha256 : String → String}

theorem match_prefix_some {rows voted : List Row} {hash : String} {n : ℕ}
    (found : matchPrefix sha256 rows hash n = some voted) :
    ∃ k, 1 ≤ k ∧ k ≤ n ∧ voted = rows.take k ∧ computeEvidenceHash sha256 voted = hash := by
  induction n with
  | zero => simp [matchPrefix] at found
  | succ n ih =>
    rw [matchPrefix] at found
    split at found
    · rename_i hashed
      rw [Option.some.injEq] at found
      rw [← found]
      exact ⟨n + 1, by omega, le_refl _, rfl, hashed⟩
    · obtain ⟨k, low, high, prefix_eq, hashed⟩ := ih found
      exact ⟨k, low, by omega, prefix_eq, hashed⟩

theorem match_prefix_none {rows : List Row} {hash : String} {n : ℕ}
    (missed : matchPrefix sha256 rows hash n = none) {k : ℕ} (low : 1 ≤ k) (high : k ≤ n) :
    computeEvidenceHash sha256 (rows.take k) ≠ hash := by
  induction n with
  | zero => omega
  | succ n ih =>
    rw [matchPrefix] at missed
    split at missed
    · exact absurd missed (by simp)
    · rename_i other
      rcases Nat.lt_or_ge k (n + 1) with less | whole
      · exact ih missed (by omega)
      · rw [show k = n + 1 by omega]
        exact other

theorem same_id {t : Table} {a b : Row} (first : a ∈ t.rows) (second : b ∈ t.rows)
    (same : a.id = b.id) : a = b := by
  have distinct : (t.rows.map Row.id).Nodup := by
    rw [List.Nodup, List.pairwise_map]
    exact t.ordered.imp (fun less => Nat.ne_of_lt less)
  exact List.inj_on_of_nodup_map distinct first second same

/-- The statement marks the rows it was given the ids of, and no other row. -/
theorem settled_exactly {t : Table} {pk : String} {newStatus : Status} {voted : List Row}
    (chosen : List.Sublist voted (pendingRows t pk)) :
    (updateSlashProposalsStatusByIds t newStatus pk (voted.map Row.id)).2.rows =
      t.rows.map (fun r => if r ∈ voted then settle newStatus r else r) := by
  simp only [updateSlashProposalsStatusByIds, Table.settleRows]
  apply List.map_congr_left
  intro r held
  have listed : (isPending pk r && decide (r.id ∈ voted.map Row.id)) = true ↔ r ∈ voted := by
    rw [Bool.and_eq_true, decide_eq_true_eq]
    constructor
    · rintro ⟨-, known⟩
      obtain ⟨q, member, same⟩ := List.mem_map.mp known
      have from_table : q ∈ t.rows := (List.mem_filter.mp (chosen.subset member)).1
      rw [← same_id from_table held same]
      exact member
    · intro member
      exact ⟨(List.mem_filter.mp (chosen.subset member)).2, List.mem_map_of_mem member⟩
  by_cases member : r ∈ voted
  · rw [if_pos (listed.mpr member), if_pos member]
  · rw [if_neg (fun on => member (listed.mp on)), if_neg member]

/- The rows of some choice of the pending rows with the voted hash are marked, and no other; or
   there is no such choice, and no row is. -/
structure SweepsVoted (sha256 : String → String) (before after : Table) (pk voted : String)
    (newStatus : Status) : Prop where
  marks : (∃ chosen, List.Sublist chosen (pendingRows before pk) ∧
      computeEvidenceHash sha256 chosen = voted) →
    ∃ chosen, List.Sublist chosen (pendingRows before pk) ∧
      computeEvidenceHash sha256 chosen = voted ∧
      after.rows = before.rows.map (fun r => if r ∈ chosen then settle newStatus r else r)
  spares : (¬ ∃ chosen, List.Sublist chosen (pendingRows before pk) ∧
      computeEvidenceHash sha256 chosen = voted) → after.rows = before.rows

/- Where the pending rows hold the voted offenses at all, their oldest ones are just these. -/
def HeldInFront (pending : List Row) (voted : List Identity) : Prop :=
  (∃ chosen, List.Sublist chosen pending ∧ (identities chosen).Perm voted) →
    ∃ k, (identities (pending.take k)).Perm voted

theorem pending_against {t : Table} {pk : String} (lower : asciiLower pk = pk) :
    Against pk (pendingRows t pk) := by
  intro r member
  have pending := (List.mem_filter.mp member).2
  rw [isPending, Bool.and_eq_true, decide_eq_true_eq, lower] at pending
  exact pending.1

theorem identities_nil {rows : List Row} (perm : (identities []).Perm (identities rows)) :
    rows = [] := by
  have size := perm.length_eq
  rw [identities, identities, List.map_nil, List.length_nil, List.length_map] at size
  exact List.length_eq_zero_iff.mp size.symm

/-- The sweep marks the voted rows wherever they are just when it finds them in front. -/
theorem sweeps_voted_iff (hex : ∀ s, LowerHex 64 (sha256 s)) (t proposer : Table) {pk : String}
    (keyed : LowerHex 64 pk) (lower : asciiLower pk = pk)
    (filled : pendingRows proposer pk ≠ [])
    (free : CollisionFree sha256 (hashedTexts sha256 (pendingRows t pk) ++
      hashedTexts sha256 (pendingRows proposer pk))) (penalty : Penalty) :
    SweepsVoted sha256 t (sweepVotedEvidence sha256 t
        ⟨pk, computeEvidenceHash sha256 (pendingRows proposer pk)⟩ penalty (pendingRows t pk)).2
      pk (computeEvidenceHash sha256 (pendingRows proposer pk)) penalty.newStatus ↔
      HeldInFront (pendingRows t pk) (identities (pendingRows proposer pk)) := by
  have hashes : ∀ chosen, List.Sublist chosen (pendingRows t pk) →
      (computeEvidenceHash sha256 chosen = computeEvidenceHash sha256 (pendingRows proposer pk) ↔
        (identities chosen).Perm (identities (pendingRows proposer pk))) :=
    fun chosen inside => evidence_hash_iff hex keyed free (pending_against lower)
      (pending_against lower) inside (List.Sublist.refl _) filled
  constructor
  · rintro ⟨marks, -⟩ ⟨chosen, inside, perm⟩
    obtain ⟨swept, within, hashed, marked⟩ := marks ⟨chosen, inside, (hashes chosen inside).mpr perm⟩
    cases found : matchVotedRows sha256 (pendingRows t pk)
        (computeEvidenceHash sha256 (pendingRows proposer pk)) with
    | some voted =>
      obtain ⟨k, -, -, rfl, same⟩ := match_prefix_some found
      exact ⟨k, (hashes _ (List.take_sublist k _)).mp same⟩
    | none =>
      -- No row was marked, and a row of the choice was pending.
      exfalso
      simp only [sweepVotedEvidence, found] at marked
      have some_row : swept ≠ [] := by
        rintro rfl
        exact filled (identities_nil ((hashes [] (List.nil_sublist _)).mp hashed))
      obtain ⟨r, more, shape⟩ := List.exists_cons_of_ne_nil some_row
      have member : r ∈ swept := shape ▸ List.mem_cons_self
      obtain ⟨held, pending⟩ := List.mem_filter.mp (within.subset member)
      have fixed : t.rows.map id =
          t.rows.map (fun r => if r ∈ swept then settle penalty.newStatus r else r) := by
        rw [List.map_id]
        exact marked
      have kept := List.map_inj_left.mp fixed r held
      rw [id, if_pos member] at kept
      rw [isPending, Bool.and_eq_true, decide_eq_true_eq, kept] at pending
      cases penalty <;> simp [settle, Penalty.newStatus] at pending
  · intro front
    cases found : matchVotedRows sha256 (pendingRows t pk)
        (computeEvidenceHash sha256 (pendingRows proposer pk)) with
    | some voted =>
      obtain ⟨k, -, -, rfl, same⟩ := match_prefix_some found
      have inside : List.Sublist ((pendingRows t pk).take k) (pendingRows t pk) :=
        List.take_sublist k _
      refine ⟨fun _ => ⟨_, inside, same, ?_⟩, fun nothing => absurd ⟨_, inside, same⟩ nothing⟩
      simp only [sweepVotedEvidence, found]
      exact settled_exactly inside
    | none =>
      refine ⟨?_, fun _ => by simp only [sweepVotedEvidence, found]⟩
      rintro ⟨chosen, inside, hashed⟩
      exfalso
      obtain ⟨k, perm⟩ := front ⟨chosen, inside, (hashes chosen inside).mp hashed⟩
      have low : 1 ≤ min k (pendingRows t pk).length := by
        by_contra less
        have empty : (pendingRows t pk).take k = [] := by
          rw [← List.length_eq_zero_iff, List.length_take]
          omega
        rw [empty] at perm
        exact filled (identities_nil perm)
      rw [List.take_eq_take_min] at perm
      exact match_prefix_none found low (min_le_right _ _)
        ((hashes _ (List.take_sublist _ _)).mpr perm)

theorem lower_hex_fixed {n : ℕ} {s : String} (hex : LowerHex n s) :
    s.toList.map Char.toLower = s.toList := by
  have fixed : ∀ c ∈ s.toList, c.toLower = id c := by
    intro c member
    have range := HexText.lower_hex_range (hex.2 c member)
    apply ScriptValue.lower_of_not_upper
    rw [ScriptValue.is_upper_eq, decide_eq_false_iff_not]
    rintro ⟨low, high⟩
    have upper : 'A'.val.toNat = 65 ∧ 'Z'.val.toNat = 90 := by decide
    have code : c.val.toNat = c.toNat := rfl
    rw [ge_iff_le, UInt32.le_iff_toNat_le] at low
    rw [UInt32.le_iff_toNat_le] at high
    omega
  rw [List.map_congr_left fixed, List.map_id]

theorem prefix_stripped (front rest : List Char) :
    List.isPrefixOf? front (front ++ rest) = some rest := by
  induction front with
  | nil => rfl
  | cons c front ih => simp [List.isPrefixOf?, ih]

theorem parse_parameter {pk hash : String} (keyed : LowerHex 64 pk) (hashed : LowerHex 64 hash) :
    parseSlashPenaltyParam (slashPenaltyPrefix ++ pk ++ ":" ++ hash) = some ⟨pk, hash⟩ := by
  have colon : ∀ {s : String}, LowerHex 64 s → ':' ∉ s.toList :=
    fun hex inside => absurd (hex.2 ':' inside) (by decide)
  have rest : List.isPrefixOf? slashPenaltyPrefix.toList
      (slashPenaltyPrefix ++ pk ++ ":" ++ hash).toList =
        some (pk.toList ++ ':' :: hash.toList) := by
    rw [String.append_assoc, String.append_assoc, String.toList_append, prefix_stripped,
      String.toList_append, String.toList_append]
    rfl
  have parts : ((pk.toList ++ ':' :: hash.toList).map Char.toLower).splitOn ':' =
      [pk.toList, hash.toList] := by
    rw [List.map_append, List.map_cons, lower_hex_fixed keyed, lower_hex_fixed hashed,
      show Char.toLower ':' = ':' from by decide, List.splitOn_append_cons_self,
      List.splitOn_eq_singleton (colon keyed), List.splitOn_eq_singleton (colon hashed)]
    rfl
  simp only [parseSlashPenaltyParam, rest, parts, String.ofList_toList, keyed, hashed, and_self,
    if_true]

/-- Executing a penalty sweeps the evidence as the vote on it says. -/
theorem finalized_evidence (sha256 : String → String) (hub : Hub) {pk hash : String} (keyed : LowerHex 64 pk)
    (hashed : LowerHex 64 hash) (penalty : Penalty) :
    (applyFinalized sha256 hub ⟨slashPenaltyPrefix ++ pk ++ ":" ++ hash, penalty.text⟩).2.evidence =
      (sweepVotedEvidence sha256 hub.evidence ⟨pk, hash⟩ penalty
        (pendingRows hub.evidence pk)).2 := by
  have filled : slashPenaltyPrefix ++ pk ++ ":" ++ hash ≠ "" := by
    intro empty
    have chars := congrArg String.toList empty
    simp [slashPenaltyPrefix, String.toList_append] at chars
  have read : readPenalty (asciiLower penalty.text) = some penalty := by
    cases penalty <;> decide +kernel
  simp only [applyFinalized, if_neg filled, parse_parameter keyed hashed, read]
  cases swept : sweepVotedEvidence sha256 hub.evidence ⟨pk, hash⟩ penalty
      (pendingRows hub.evidence pk) with
  | mk marked after =>
    cases marked with
    | some n =>
      simp only
      split <;> rfl
    | none =>
      simp only [sweepVotedEvidence] at swept
      split at swept
      · simp at swept
      · exact (Prod.mk.inj swept).2

/-- A passed penalty marks the voted rows just where a hub's oldest pending rows are the voted
    ones, whenever it holds the voted ones at all. -/
theorem passed_penalty_sweeps_iff (sha256 : String → String) (hex : ∀ s, LowerHex 64 (sha256 s))
    (proposer : Table) (hub : Hub) {validatorPubkey penalty : String} {proposal : Proposal}
    (made : proposeSlashPenalty sha256 proposer validatorPubkey penalty = .ok proposal)
    (free : CollisionFree sha256
      (hashedTexts sha256 (pendingRows hub.evidence proposal.validatorPubkey) ++
        hashedTexts sha256 (pendingRows proposer proposal.validatorPubkey))) :
    SweepsVoted sha256 hub.evidence
      (applyFinalized sha256 hub ⟨proposal.parameter, proposal.penalty.text⟩).2.evidence
      proposal.validatorPubkey proposal.evidenceHash proposal.penalty.newStatus ↔
      HeldInFront (pendingRows hub.evidence proposal.validatorPubkey)
        (identities (pendingRows proposer proposal.validatorPubkey)) := by
  simp only [proposeSlashPenalty] at made
  split at made
  · simp at made
  · rename_i keyed
    rw [not_not] at keyed
    cases action : readPenalty penalty with
    | none => simp [action] at made
    | some p =>
      simp only [action] at made
      split at made
      · simp at made
      · rename_i some_rows
        rw [Except.ok.injEq] at made
        subst made
        have filled : pendingRows proposer (asciiLower validatorPubkey) ≠ [] :=
          fun none_left => some_rows (List.length_eq_zero_iff.mpr none_left)
        have swept := finalized_evidence sha256 hub keyed
          (hex (evidenceText sha256 (pendingRows proposer (asciiLower validatorPubkey)))) p
        simp only [computeEvidenceHash] at free ⊢
        rw [swept]
        exact sweeps_voted_iff hex hub.evidence proposer keyed (StakeWeightedQuorum.ascii_lower_idem _) filled free p

end Sweep

section Sample

def offender : String := String.ofList (List.replicate 64 'a')

def missedRounds (id : ℕ) : Row :=
  ⟨id, offender, .nonParticipation, some 99, some "\x7b\"missedRounds\":30\x7d", .pending⟩

def deviation (id : ℕ) : Row :=
  ⟨id, offender, .priceDeviation, some 100, some "\x7b\"pairCount\":1\x7d", .pending⟩

/- The hub that proposes has seen the deviation only; the other saw missed rounds before it. -/
def proposing : Table := ⟨[deviation 0], 1, by decide, by decide⟩

def executing : Table := ⟨[missedRounds 0, deviation 1], 2, by decide, by decide⟩

def digests : List (String × String) :=
  [("\x7b\"pairCount\":1\x7d", "9f7cb62d86ac00c952ea22f6a92cc4e30196f4441829dab6664d897cafbb3f78"),
    ("\x7b\"missedRounds\":30\x7d",
      "ac953fd209427831fad69803f40e2c5523deb0dd872efb8cf2b4ace50c91ae2e"),
    ("", "e3b0c44298fc1c149afbf4c8996fb92427ae41e4649b934ca495991b7852b855"),
    (offender ++ "|price_deviation|100|" ++
      "9f7cb62d86ac00c952ea22f6a92cc4e30196f4441829dab6664d897cafbb3f78",
      "22d809ec90cab1161dd29e63c43313716398c4be8bf63df0f366473df9338a07"),
    (offender ++ "|non_participation|99|" ++
      "ac953fd209427831fad69803f40e2c5523deb0dd872efb8cf2b4ace50c91ae2e",
      "46af83de92709789de669c79b3293527184d7310b8d2a2792200678b59ee353c")]

/- SHA-256 of the texts the two hubs hash, the last of them the two keys together. -/
def sampleDigest (s : String) : String :=
  ((digests.find? (fun d => d.1 = s)).map Prod.snd).getD
    "a55e2de35c02f6bf5891ff09a12a5cf5731ef828494474f96dbd1a97bc972590"

theorem sample_digest_hex (s : String) : LowerHex 64 (sampleDigest s) := by
  have listed : ∀ d ∈ digests, LowerHex 64 d.2 := by decide +kernel
  unfold sampleDigest
  cases found : digests.find? (fun d => d.1 = s) with
  | none => decide +kernel
  | some d => exact listed d (List.mem_of_find?_eq_some found)

theorem offender_chars : offender.toList = List.replicate 64 'a' := by
  unfold offender
  exact String.toList_ofList

theorem offender_lower : asciiLower offender = offender := by
  have low : 'a'.toLower = 'a' := by decide
  unfold asciiLower
  rw [offender_chars, List.map_replicate, low]
  unfold offender
  exact Eq.refl _

theorem offender_keyed : LowerHex 64 offender := by
  rw [LowerHex, offender_chars]
  refine ⟨List.length_replicate, fun c member => ?_⟩
  rw [(List.mem_replicate.mp member).2]
  decide

theorem sample_pending :
    pendingRows executing offender = [missedRounds 0, deviation 1] ∧
      pendingRows proposing offender = [deviation 0] := by
  simp [pendingRows, isPending, executing, proposing, missedRounds, deviation]

theorem sample_keys :
    (deviation 0).identity.key sampleDigest = offender ++ "|price_deviation|100|" ++
      "9f7cb62d86ac00c952ea22f6a92cc4e30196f4441829dab6664d897cafbb3f78" ∧
    (missedRounds 0).identity.key sampleDigest = offender ++ "|non_participation|99|" ++
      "ac953fd209427831fad69803f40e2c5523deb0dd872efb8cf2b4ace50c91ae2e" := by
  simp only [Row.identity, deviation, missedRounds, offender_lower]
  decide +kernel

/- Whichever of the two keys sorts first, no other hashed text is their join. -/
theorem sample_collision_free :
    CollisionFree sampleDigest (hashedTexts sampleDigest [missedRounds 0, deviation 1] ++
      hashedTexts sampleDigest [deviation 0]) := by
  have single : ∀ r : Row, evidenceText sampleDigest [r] = r.identity.key sampleDigest :=
    fun r => by simp [evidenceText]
  have again : (deviation 1).identity = (deviation 0).identity := rfl
  have pair : ∀ a b : String, [a, b].insertionSort inOrder = [a, b] ∨
      [a, b].insertionSort inOrder = [b, a] := by
    intro a b
    by_cases first : inOrder a b
    · exact .inl (by simp [first])
    · exact .inr (by simp [first])
  have both : ∀ a b : Row, [a, b].sublists = [[], [a], [b], [a, b]] := fun _ _ => rfl
  have alone : ∀ a : Row, [a].sublists = [[], [a]] := fun _ => rfl
  have none_left : evidenceText sampleDigest [] = "" := rfl
  have joined : evidenceText sampleDigest [missedRounds 0, deviation 1] = String.intercalate "\n"
      ([(missedRounds 0).identity.key sampleDigest,
        (deviation 0).identity.key sampleDigest].insertionSort inOrder) := rfl
  simp only [hashedTexts, both, alone, List.map_cons, List.map_nil, single, again, none_left, joined]
  rcases pair ((missedRounds 0).identity.key sampleDigest)
    ((deviation 0).identity.key sampleDigest) with front | back
  · rw [front, sample_keys.1, sample_keys.2]
    decide +kernel
  · rw [back, sample_keys.1, sample_keys.2]
    decide +kernel

theorem sample_proposal :
    proposeSlashPenalty sampleDigest proposing offender "dismiss" =
      .ok ⟨offender, .dismiss, computeEvidenceHash sampleDigest [deviation 0], 1,
        slashPenaltyPrefix ++ offender ++ ":" ++ computeEvidenceHash sampleDigest [deviation 0]⟩ := by
  have action : readPenalty "dismiss" = some .dismiss := rfl
  simp only [proposeSlashPenalty, offender_lower, offender_keyed, not_true_eq_false, if_false,
    action, sample_pending.2, List.length_singleton, one_ne_zero]

theorem sample_not_in_front :
    ¬ HeldInFront [missedRounds 0, deviation 1] (identities [deviation 0]) := by
  intro front
  obtain ⟨k, perm⟩ := front ⟨[deviation 1], by decide +kernel, List.Perm.refl _⟩
  have size := perm.length_eq
  have member : (deviation 0).identity ∈ identities ([missedRounds 0, deviation 1].take k) :=
    perm.mem_iff.mpr (by simp [identities])
  match k with
  | 0 => exact absurd member (by decide +kernel)
  | 1 => exact absurd member (by decide +kernel)
  | k + 2 => simp [identities] at size

/-- The second hub holds the voted deviation behind a row of its own, and a passed dismissal
    leaves both pending. -/
theorem later_evidence_not_swept :
    CollisionFree sampleDigest (hashedTexts sampleDigest [missedRounds 0, deviation 1] ++
      hashedTexts sampleDigest [deviation 0]) ∧
    ∃ proposal, proposeSlashPenalty sampleDigest proposing offender "dismiss" = .ok proposal ∧
      ¬ SweepsVoted sampleDigest executing
        (applyFinalized sampleDigest ⟨executing, []⟩
          ⟨proposal.parameter, proposal.penalty.text⟩).2.evidence
        proposal.validatorPubkey proposal.evidenceHash proposal.penalty.newStatus := by
  refine ⟨sample_collision_free, _, sample_proposal, ?_⟩
  have swept := finalized_evidence sampleDigest ⟨executing, []⟩ offender_keyed
    (sample_digest_hex (evidenceText sampleDigest [deviation 0])) .dismiss
  have verdict := sweeps_voted_iff sample_digest_hex executing proposing offender_keyed
    offender_lower (by simp [sample_pending.2])
    (by rw [sample_pending.1, sample_pending.2]; exact sample_collision_free) .dismiss
  simp only [sample_pending.1, sample_pending.2] at verdict
  simp only [computeEvidenceHash] at verdict ⊢
  rw [swept, sample_pending.1, verdict]
  exact sample_not_in_front

theorem dismissed_deviation_sweeps_iff :
    ∃ proposal, proposeSlashPenalty sampleDigest proposing offender "dismiss" = .ok proposal ∧
      (SweepsVoted sampleDigest executing
        (applyFinalized sampleDigest ⟨executing, []⟩
          ⟨proposal.parameter, proposal.penalty.text⟩).2.evidence
        proposal.validatorPubkey proposal.evidenceHash proposal.penalty.newStatus ↔
      HeldInFront (pendingRows executing proposal.validatorPubkey)
        (identities (pendingRows proposing proposal.validatorPubkey))) := by
  refine ⟨_, sample_proposal, ?_⟩
  refine passed_penalty_sweeps_iff sampleDigest sample_digest_hex proposing ⟨executing, []⟩
    sample_proposal ?_
  show CollisionFree sampleDigest (hashedTexts sampleDigest (pendingRows executing offender) ++
    hashedTexts sampleDigest (pendingRows proposing offender))
  rw [sample_pending.1, sample_pending.2]
  exact sample_collision_free

end Sample

end XChainHub.SlashGovernance
