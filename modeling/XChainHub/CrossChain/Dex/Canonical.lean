import XChainHub.Consensus.Gates.MirrorAdmissionGate
import XChainHub.CrossChain.Engine

/-!
The signed bytes of a cross-chain match, canonicalMatch of
cross_chain/dex_engine.js, and the DEX engine as the consensus sees it. A field
holds the text its join writes, none where the source reads it as falsy or null.
-/
namespace XChainHub.CrossChain.Dex
open EquivocationHeader MirrorAdmissionGate DecimalText

structure Leg where
  chain : String
  actionIndex : String
  tick : Option String
  amount : String
  ownership : String
  payoutAddr : String
  kind : Option String
  filledBefore : Option String
  payoutLegs : Option String
  deriving DecidableEq

/- A row in a round has the round's id up to case, which is a hash and has no bar. -/
structure MatchRow where
  matchId : String
  plainId : Plain matchId
  snapshotBlock : String
  network : Option String
  a : Leg
  b : Leg
  effectiveTime : String
  admitColumns : AdmitColumns
  admitBlocks : Option AdmissionMap
  deriving DecidableEq

instance (text : String) : Decidable (Plain text) := inferInstanceAs (Decidable (_ ∉ _))

/- The gate registry as this hub reads it, and String() of a view. -/
structure Gates where
  royaltyActive : String → String → Bool
  admissionEra : String → String → Bool
  equivActivation : String → Option ℤ
  parseBlock : String → Option ℤ
  stakeWeightedActive : String → String → Bool
  numberText : ℚ → String
  plainNumber : ∀ q, Plain (numberText q)

def MatchRow.networkText (r : MatchRow) : String := r.network.getD ""

def Leg.fields (l : Leg) : List String :=
  [l.chain, l.actionIndex, l.tick.getD "", l.amount, l.ownership, l.payoutAddr]

def Leg.fillFields (l : Leg) : List String := [l.kind.getD "swap", l.filledBefore.getD "0"]

def baseFields (r : MatchRow) : List String :=
  r.snapshotBlock :: (r.a.fields ++ r.b.fields ++ [r.effectiveTime, r.networkText] ++
    r.a.fillFields ++ r.b.fillFields)

def royaltyField (g : Gates) (r : MatchRow) : String :=
  if g.royaltyActive r.networkText r.snapshotBlock then
    "|" ++ r.a.payoutLegs.getD "" ++ "|" ++ r.b.payoutLegs.getD ""
  else ""

def admissionField (g : Gates) (r : MatchRow) : Option String :=
  (rowAdmitBlocks r.admitColumns r.admitBlocks).bind
    (admissionCanonicalField (g.admissionEra r.networkText r.snapshotBlock))

def rawMatch (g : Gates) (r : MatchRow) : Option String :=
  (admissionField g r).map (fun tail =>
    "XMATCH|" ++ r.matchId ++ "|" ++ String.intercalate "|" (baseFields r) ++
      royaltyField g r ++ tail)

def headerActive (g : Gates) (r : MatchRow) : Bool :=
  isEquivHeaderActive g.equivActivation (g.parseBlock r.snapshotBlock) r.networkText

def canonicalMatch (g : Gates) (r : MatchRow) (view : ℚ) : Option String :=
  (rawMatch g r).map (fun raw =>
    if headerActive g r then buildEquivCanonical "XDEX" r.matchId (g.numberText view) raw
    else raw)

theorem raw_match_chars {g : Gates} {r : MatchRow} {raw : String}
    (built : rawMatch g r = some raw) :
    ∃ rest, raw.toList = "XMATCH".toList ++ '|' :: (r.matchId.toList ++ '|' :: rest) := by
  obtain ⟨tail, -, rfl⟩ := Option.map_eq_some_iff.mp built
  refine ⟨(String.intercalate "|" (baseFields r) ++ royaltyField g r ++ tail).toList, ?_⟩
  simp [String.toList_append]

theorem raw_match_bare {g : Gates} {r : MatchRow} {raw : String} (built : rawMatch g r = some raw) :
    "EQUIV|".toList.isPrefixOf raw.toList = false := by
  obtain ⟨rest, chars⟩ := raw_match_chars built
  rw [chars]
  rfl

theorem raw_match_id {g : Gates} {r r' : MatchRow} {raw : String} (built : rawMatch g r = some raw)
    (again : rawMatch g r' = some raw) : r.matchId = r'.matchId := by
  obtain ⟨rest, chars⟩ := raw_match_chars built
  obtain ⟨rest', chars'⟩ := raw_match_chars again
  rw [chars] at chars'
  obtain ⟨-, ids⟩ := DelimitedText.plain_field_inj (by decide) (by decide) chars'
  obtain ⟨same, -⟩ := DelimitedText.plain_field_inj r.plainId r'.plainId ids
  exact String.toList_inj.mp same

theorem canonical_match_cases {g : Gates} {r : MatchRow} {view : ℚ} {c : String}
    (built : canonicalMatch g r view = some c) : ∃ raw, rawMatch g r = some raw ∧
      (c = buildEquivCanonical "XDEX" r.matchId (g.numberText view) raw ∨ c = raw) := by
  obtain ⟨raw, found, rfl⟩ := Option.map_eq_some_iff.mp built
  refine ⟨raw, found, ?_⟩
  split
  · exact Or.inl rfl
  · exact Or.inr rfl

/-- The bytes determine the signed content, whatever the view. -/
theorem canonical_match_content {g : Gates} {r : MatchRow} {view : ℚ} {c : String}
    (built : canonicalMatch g r view = some c) : rawMatch g r = some (contentOf c) := by
  obtain ⟨raw, found, rfl | rfl⟩ := canonical_match_cases built
  · rw [content_of_equiv (by decide) r.plainId (g.plainNumber view)]
    exact found
  · rw [content_of_bare (raw_match_bare found)]
    exact found

theorem canonical_match_id {g : Gates} {r r' : MatchRow} {view view' : ℚ} {c : String}
    (built : canonicalMatch g r view = some c) (again : canonicalMatch g r' view' = some c) :
    r.matchId = r'.matchId :=
  raw_match_id (canonical_match_content built) (canonical_match_content again)

theorem canonical_match_start {g : Gates} {r : MatchRow} {view : ℚ} {c : String}
    (built : canonicalMatch g r view = some c) :
    ∃ rest, c.toList = "EQUIV".toList ++ '|' :: rest ∨
      c.toList = "XMATCH".toList ++ '|' :: rest := by
  obtain ⟨raw, found, rfl | rfl⟩ := canonical_match_cases built
  · exact ⟨_, Or.inl (equiv_canonical_chars ..)⟩
  · obtain ⟨rest, chars⟩ := raw_match_chars found
    exact ⟨_, Or.inr chars⟩

def commitType : String := "XDEX_MATCH_COMMIT"

theorem canonical_not_commit (g : Gates) (r : MatchRow) (view : ℚ) (c : String) :
    canonicalMatch g r view ≠ some (commitType ++ "|PHASEV1|" ++ c) := by
  intro built
  obtain ⟨rest, start | start⟩ := canonical_match_start built
  all_goals simp [commitType, String.toList_append] at start

theorem control_not_commit : ∀ tag ∈ ["XDEXVC", "XDEXNV"], ∀ rid view c : String,
    tag ++ "|" ++ rid ++ "|" ++ view ≠ commitType ++ "|PHASEV1|" ++ c := by
  intro tag member rid view c same
  have chars := congrArg String.toList same
  simp only [List.mem_cons, List.not_mem_nil, or_false] at member
  rcases member with rfl | rfl
  all_goals simp [commitType, String.toList_append] at chars

/- The DEX engine declares no restamp margin. -/
def dexEngine (g : Gates) : Engine MatchRow where
  matchId := MatchRow.matchId
  snapshotBlock := MatchRow.snapshotBlock
  network := MatchRow.networkText
  stakeWeightedActive := fun r => g.stakeWeightedActive r.snapshotBlock r.networkText
  canonicalMatch := canonicalMatch g
  content := rawMatch g
  effectiveTime := fun r => signedValue (trim r.effectiveTime.toList)
  setEffectiveTime := fun r t => { r with effectiveTime := g.numberText t }
  marginDeclared := false
  resolvesValidators := true
  commitType := commitType
  vcTag := "XDEXVC"
  nvTag := "XDEXNV"
  numberText := g.numberText
  stamp_keeps_id := fun _ _ => rfl
  canonical_content := fun _ _ _ built => canonical_match_content built
  canonical_id := fun _ _ _ _ _ built again => canonical_match_id built again
  commit_apart := canonical_not_commit g
  control_apart := control_not_commit

end XChainHub.CrossChain.Dex
