import XChainHub.CrossChain.Dex.Canonical

/-!
How the row of a snapshot table is signed: a tag and the snapshot id, the columns of its
table, and what the gates append, under the equivocation header where that is active. The
policy half of canonicalMatch in cross_chain/bridge_engine.js and listSnapshotCanonical in
cross_chain/list/canonical.js share this shape.
-/
namespace XChainHub.CrossChain.Snapshots
open EquivocationHeader DelimitedText MirrorAdmissionGate
open Dex (Gates)

/- columns are the fields after the id, at least one; tail is none where the source throws. -/
structure Form (R : Type) where
  tag : String
  snapshotId : R → String
  snapshotBlock : R → String
  network : R → String
  columns : R → List String
  tail : R → Option String
  plainTag : Plain tag
  apart : tag ≠ "EQUIV"
  plainId : ∀ r, Plain (snapshotId r)

variable {R : Type} (form : Form R) (g : Gates)

def Form.raw (r : R) : Option String :=
  (form.tail r).map (fun tail => form.tag ++ "|" ++ form.snapshotId r ++ "|" ++
    String.intercalate "|" (form.columns r) ++ tail)

def Form.canonical (r : R) (view : ℚ) : Option String :=
  (form.raw r).map (fun raw =>
    if isEquivHeaderActive g.equivActivation (g.parseBlock (form.snapshotBlock r)) (form.network r) then
      buildEquivCanonical form.tag (form.snapshotId r) (g.numberText view) raw
    else raw)

section Bytes
variable {form g} {r r' : R} {raw c : String} {view view' : ℚ}

theorem raw_chars (built : form.raw r = some raw) :
    ∃ rest, raw.toList = form.tag.toList ++ '|' :: ((form.snapshotId r).toList ++ '|' :: rest) := by
  obtain ⟨tail, -, rfl⟩ := Option.map_eq_some_iff.mp built
  refine ⟨(String.intercalate "|" (form.columns r) ++ tail).toList, ?_⟩
  simp [String.toList_append]

/-- A text whose first field is plain and not the header's is no headed one. -/
theorem not_headed {tag : String} {rest : List Char} (plain : Plain tag) (apart : tag ≠ "EQUIV")
    (chars : raw.toList = tag.toList ++ '|' :: rest) :
    "EQUIV|".toList.isPrefixOf raw.toList = false := by
  rw [Bool.eq_false_iff]
  intro headed
  obtain ⟨more, same⟩ := List.isPrefixOf_iff_prefix.mp headed
  have fields : "EQUIV".toList ++ '|' :: more = tag.toList ++ '|' :: rest := by
    rw [← chars, ← same]
    rfl
  obtain ⟨tags, -⟩ := plain_field_inj (by decide) plain fields
  exact apart (String.toList_inj.mp tags.symm)

theorem raw_id (built : form.raw r = some raw) (again : form.raw r' = some raw) :
    form.snapshotId r = form.snapshotId r' := by
  obtain ⟨rest, chars⟩ := raw_chars built
  obtain ⟨rest', chars'⟩ := raw_chars again
  rw [chars] at chars'
  obtain ⟨-, ids⟩ := plain_field_inj form.plainTag form.plainTag chars'
  obtain ⟨same, -⟩ := plain_field_inj (form.plainId r) (form.plainId r') ids
  exact String.toList_inj.mp same

theorem canonical_cases (built : form.canonical g r view = some c) : ∃ raw, form.raw r = some raw ∧
    (c = buildEquivCanonical form.tag (form.snapshotId r) (g.numberText view) raw ∨ c = raw) := by
  obtain ⟨raw, found, rfl⟩ := Option.map_eq_some_iff.mp built
  refine ⟨raw, found, ?_⟩
  split
  · exact Or.inl rfl
  · exact Or.inr rfl

/-- The bytes determine the signed content, whatever the view. -/
theorem canonical_content (built : form.canonical g r view = some c) :
    form.raw r = some (contentOf c) := by
  obtain ⟨raw, found, rfl | rfl⟩ := canonical_cases built
  · rw [content_of_equiv form.plainTag (form.plainId r) (g.plainNumber view)]
    exact found
  · obtain ⟨rest, chars⟩ := raw_chars found
    rw [content_of_bare (not_headed form.plainTag form.apart chars)]
    exact found

theorem canonical_id (built : form.canonical g r view = some c)
    (again : form.canonical g r' view' = some c) : form.snapshotId r = form.snapshotId r' :=
  raw_id (canonical_content built) (canonical_content again)

theorem canonical_start (built : form.canonical g r view = some c) :
    ∃ rest, c.toList = "EQUIV".toList ++ '|' :: rest ∨ c.toList = form.tag.toList ++ '|' :: rest := by
  obtain ⟨raw, found, rfl | rfl⟩ := canonical_cases built
  · exact ⟨_, Or.inl (equiv_canonical_chars ..)⟩
  · obtain ⟨rest, chars⟩ := raw_chars found
    exact ⟨_, Or.inr chars⟩

/-- Texts with different plain first fields differ. -/
theorem apart_of_first {a b x y : String} (first : Plain a) (second : Plain b) (apart : a ≠ b) :
    a ++ "|" ++ x ≠ b ++ "|" ++ y := by
  intro same
  have chars := congrArg String.toList same
  simp only [String.toList_append, show "|".toList = ['|'] from rfl, List.append_assoc,
    List.singleton_append] at chars
  exact apart (String.toList_inj.mp (plain_field_inj first second chars).1)

theorem canonical_not_commit {commitType : String} (plain : Plain commitType)
    (header : "EQUIV" ≠ commitType) (tag : form.tag ≠ commitType) (rest : String) :
    form.canonical g r view ≠ some (commitType ++ "|PHASEV1|" ++ rest) := by
  intro built
  have shape : commitType ++ "|PHASEV1|" ++ rest = commitType ++ "|" ++ ("PHASEV1|" ++ rest) := by
    simp [← String.toList_inj, String.toList_append]
  rw [shape] at built
  obtain ⟨more, start | start⟩ := canonical_start built
  · have joined : commitType ++ "|" ++ ("PHASEV1|" ++ rest) = "EQUIV" ++ "|" ++ String.ofList more := by
      rw [← String.toList_inj, start]
      simp [String.toList_append]
    exact apart_of_first plain (by decide) (Ne.symm header) joined
  · have joined : commitType ++ "|" ++ ("PHASEV1|" ++ rest) = form.tag ++ "|" ++ String.ofList more := by
      rw [← String.toList_inj, start]
      simp [String.toList_append]
    exact apart_of_first plain form.plainTag (Ne.symm tag) joined

end Bytes

section Cells
variable {form} {r : R} {raw tail : String}

theorem bar_cells_tail (front : String) (ends : tail = "" ∨ ∃ rest, tail = "|" ++ rest) :
    ∃ more, barCells (front ++ tail) = barCells front ++ more := by
  rcases ends with rfl | ⟨rest, rfl⟩
  · exact ⟨[], by simp⟩
  · refine ⟨barCells rest, ?_⟩
    rw [← String.append_assoc]
    exact bar_cells_append front rest

/-- Plain columns are read back off the content one by one. -/
theorem raw_cells (columns : ∀ f ∈ form.columns r, Plain f) (filled : form.columns r ≠ [])
    (ends : tail = "" ∨ ∃ rest, tail = "|" ++ rest) :
    ∃ more, barCells (form.tag ++ "|" ++ form.snapshotId r ++ "|" ++
      String.intercalate "|" (form.columns r) ++ tail) =
        form.tag.toList :: (form.snapshotId r).toList :: ((form.columns r).map String.toList ++ more) := by
  obtain ⟨more, split⟩ := bar_cells_tail (form.tag ++ "|" ++ form.snapshotId r ++ "|" ++
    String.intercalate "|" (form.columns r)) ends
  refine ⟨more, ?_⟩
  rw [split, bar_cells_append, bar_cells_append, bar_cells_plain form.plainTag,
    bar_cells_plain (form.plainId r), (bar_cells_join_iff filled).mpr columns]
  rfl

theorem natural_plain (n : ℕ) : Plain (toString n) := by
  intro bar
  rw [show (toString n).toList = Nat.toDigits 10 n by simp [Nat.repr]] at bar
  exact absurd (Nat.isDigit_of_mem_toDigits (by decide) (by decide) bar) (by decide)

theorem admission_field_ends {era : Bool} {map : Option AdmissionMap}
    (field : admissionCanonicalField era map = some tail) :
    tail = "" ∨ ∃ rest, tail = "|" ++ rest := by
  simp only [admissionCanonicalField] at field
  split at field
  · exact Or.inl (Option.some.inj field).symm
  · split at field
    · exact Or.inl (Option.some.inj field).symm
    · obtain ⟨spelled, -, rfl⟩ := Option.map_eq_some_iff.mp field
      exact Or.inr ⟨spelled, rfl⟩

end Cells

section Engine

/- controlTags are the VC and NV tags, commitType types.COMMIT of the channel. -/
structure Channel (R : Type) extends Form R where
  commitType : String
  vcTag : String
  nvTag : String
  stakeWeightedActive : R → Bool
  effectiveTime : R → Option ℚ
  setEffectiveTime : R → ℚ → R
  marginDeclared : Bool
  resolvesValidators : Bool
  stamp_keeps_id : ∀ r t, snapshotId (setEffectiveTime r t) = snapshotId r
  plainTypes : Plain commitType ∧ Plain vcTag ∧ Plain nvTag
  typesApart : "EQUIV" ≠ commitType ∧ tag ≠ commitType ∧ vcTag ≠ commitType ∧ nvTag ≠ commitType

theorem control_not_commit (ch : Channel R) :
    ∀ tag ∈ [ch.vcTag, ch.nvTag], ∀ rid view c : String,
      tag ++ "|" ++ rid ++ "|" ++ view ≠ ch.commitType ++ "|PHASEV1|" ++ c := by
  intro tag member rid view c same
  have left : tag ++ "|" ++ rid ++ "|" ++ view = tag ++ "|" ++ (rid ++ "|" ++ view) := by
    simp [← String.toList_inj, String.toList_append]
  have right : ch.commitType ++ "|PHASEV1|" ++ c = ch.commitType ++ "|" ++ ("PHASEV1|" ++ c) := by
    simp [← String.toList_inj, String.toList_append]
  rw [left, right] at same
  simp only [List.mem_cons, List.not_mem_nil, or_false] at member
  rcases member with rfl | rfl
  · exact apart_of_first ch.plainTypes.2.1 ch.plainTypes.1 ch.typesApart.2.2.1 same
  · exact apart_of_first ch.plainTypes.2.2 ch.plainTypes.1 ch.typesApart.2.2.2 same

/- The engine as the consensus of the channel sees it. -/
def Channel.engine (ch : Channel R) : Engine R where
  matchId := ch.snapshotId
  snapshotBlock := ch.snapshotBlock
  network := ch.network
  stakeWeightedActive := ch.stakeWeightedActive
  canonicalMatch := ch.canonical g
  content := ch.raw
  effectiveTime := ch.effectiveTime
  setEffectiveTime := ch.setEffectiveTime
  marginDeclared := ch.marginDeclared
  resolvesValidators := ch.resolvesValidators
  commitType := ch.commitType
  vcTag := ch.vcTag
  nvTag := ch.nvTag
  numberText := g.numberText
  stamp_keeps_id := ch.stamp_keeps_id
  canonical_content := fun _ _ _ built => canonical_content built
  canonical_id := fun _ _ _ _ _ built again => canonical_id built again
  commit_apart := fun _ _ c => canonical_not_commit ch.plainTypes.1 ch.typesApart.1 ch.typesApart.2.1 c
  control_apart := control_not_commit ch

end Engine
end XChainHub.CrossChain.Snapshots
