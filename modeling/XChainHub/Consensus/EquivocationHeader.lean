import XChainHub.Library.DelimitedText

/-!
The uniform signed header of consensus/equivocation_header.js. The activation
table is a function from network names to thresholds; a snapshot block is the
parseInt of its field, none where that is NaN.
-/
namespace XChainHub.EquivocationHeader
open DelimitedText

def isEquivHeaderActive (activation : String → Option ℤ) (snapshotBlock : Option ℤ)
    (network : String) : Bool :=
  match snapshotBlock, activation network with
  | some block, some threshold => threshold ≤ block
  | _, _ => false

def equivKey (engineTag roundId view : String) : String :=
  engineTag ++ "|" ++ roundId ++ "|" ++ view

def equivPrefix (key : String) : String := "EQUIV|" ++ key ++ "||"

def buildEquivCanonical (engineTag roundId view content : String) : String :=
  equivPrefix (equivKey engineTag roundId view) ++ content

/- What the bytes carry beside the header: everything after its fifth bar. -/
def contentOf (canonical : String) : String :=
  if "EQUIV|".toList.isPrefixOf canonical.toList then
    String.ofList (dropFields '|' 5 canonical.toList)
  else canonical

def Plain (text : String) : Prop := '|' ∉ text.toList

theorem equiv_canonical_chars (engineTag roundId view content : String) :
    (buildEquivCanonical engineTag roundId view content).toList =
      "EQUIV".toList ++ '|' :: (engineTag.toList ++ '|' :: (roundId.toList ++ '|' ::
        (view.toList ++ '|' :: '|' :: content.toList))) := by
  simp [buildEquivCanonical, equivPrefix, equivKey]

theorem content_of_equiv {engineTag roundId view : String} (tag : Plain engineTag)
    (round : Plain roundId) (shown : Plain view) (content : String) :
    contentOf (buildEquivCanonical engineTag roundId view content) = content := by
  have start : "EQUIV|".toList.isPrefixOf
      (buildEquivCanonical engineTag roundId view content).toList = true := by
    rw [equiv_canonical_chars]
    simp [List.isPrefixOf]
  rw [contentOf, if_pos start, equiv_canonical_chars]
  rw [drop_plain_field (by decide), drop_plain_field tag, drop_plain_field round,
    drop_plain_field shown]
  rw [show '|' :: content.toList = [] ++ '|' :: content.toList from rfl,
    drop_plain_field (by simp), drop_zero, String.ofList_toList]

theorem content_of_bare {canonical : String}
    (bare : "EQUIV|".toList.isPrefixOf canonical.toList = false) :
    contentOf canonical = canonical := by
  rw [contentOf, bare]
  rfl

/-- Headers over plain fields are read back: one text, one round, one view, one content. -/
theorem equiv_canonical_iff {tag tag' round round' view view' content content' : String}
    (plain : Plain tag ∧ Plain round ∧ Plain view)
    (plain' : Plain tag' ∧ Plain round' ∧ Plain view') :
    buildEquivCanonical tag round view content = buildEquivCanonical tag' round' view' content' ↔
      tag = tag' ∧ round = round' ∧ view = view' ∧ content = content' := by
  constructor
  · intro same
    have chars := congrArg String.toList same
    rw [equiv_canonical_chars, equiv_canonical_chars] at chars
    obtain ⟨-, tags⟩ := plain_field_inj (by decide) (by decide) chars
    obtain ⟨tag_eq, rounds⟩ := plain_field_inj plain.1 plain'.1 tags
    obtain ⟨round_eq, views⟩ := plain_field_inj plain.2.1 plain'.2.1 rounds
    obtain ⟨view_eq, contents⟩ := plain_field_inj plain.2.2 plain'.2.2 views
    exact ⟨String.toList_inj.mp tag_eq, String.toList_inj.mp round_eq, String.toList_inj.mp view_eq,
      String.toList_inj.mp (List.cons.inj contents).2⟩
  · rintro ⟨rfl, rfl, rfl, rfl⟩
    rfl

theorem views_told_apart :
    buildEquivCanonical "COMMIT" "7" "0" "|0||a" = buildEquivCanonical "COMMIT" "7" "1" "|0||a" ↔
      "COMMIT" = "COMMIT" ∧ "7" = "7" ∧ "0" = "1" ∧ "|0||a" = "|0||a" :=
  equiv_canonical_iff (by unfold Plain; decide) (by unfold Plain; decide)

end XChainHub.EquivocationHeader
