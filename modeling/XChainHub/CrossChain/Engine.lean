import Mathlib.Data.Rat.Defs
import XChainHub.Consensus.EquivocationHeader

/-!
What the cross-chain consensus asks of the engine it is built over: the duck-typed
contract in the constructor comment of cross_chain/dex_consensus.js, with the
facts about rows and signed bytes its argument rests on.
-/
namespace XChainHub.CrossChain
open EquivocationHeader

/- commitType is types.COMMIT, vcTag and nvTag are controlTags; numberText is
   String(view). content is what a row signs beside the view. -/
structure Engine (Row : Type) where
  matchId : Row → String
  snapshotBlock : Row → String
  network : Row → String
  stakeWeightedActive : Row → Bool
  canonicalMatch : Row → ℚ → Option String
  content : Row → Option String
  effectiveTime : Row → Option ℚ
  setEffectiveTime : Row → ℚ → Row
  marginDeclared : Bool
  resolvesValidators : Bool
  commitType : String
  vcTag : String
  nvTag : String
  numberText : ℚ → String
  stamp_keeps_id : ∀ r t, matchId (setEffectiveTime r t) = matchId r
  canonical_content : ∀ r v c, canonicalMatch r v = some c → content r = some (contentOf c)
  canonical_id : ∀ r r' v v' c, canonicalMatch r v = some c → canonicalMatch r' v' = some c →
    matchId r = matchId r'
  commit_apart : ∀ r v c, canonicalMatch r v ≠ some (commitType ++ "|PHASEV1|" ++ c)
  control_apart : ∀ tag ∈ [vcTag, nvTag], ∀ rid view c,
    tag ++ "|" ++ rid ++ "|" ++ view ≠ commitType ++ "|PHASEV1|" ++ c

/- What an identity is asked to sign in a round. -/
inductive Payload where
  | artifact (canonical : String)
  | commit (canonical : String)
  | control (tag rid view : String)
  deriving DecidableEq

variable {Row : Type}

def commitPayload (engine : Engine Row) (canonical : String) : String :=
  engine.commitType ++ "|PHASEV1|" ++ canonical

def controlPayload (tag rid view : String) : String := tag ++ "|" ++ rid ++ "|" ++ view

def Payload.bytes (engine : Engine Row) : Payload → String
  | .artifact canonical => canonical
  | .commit canonical => commitPayload engine canonical
  | .control tag rid view => controlPayload tag rid view

theorem commit_payload_inj {engine : Engine Row} {c d : String}
    (same : commitPayload engine c = commitPayload engine d) : c = d := by
  have chars := congrArg String.toList same
  simp only [commitPayload, String.toList_append] at chars
  exact String.toList_inj.mp (List.append_cancel_left chars)

end XChainHub.CrossChain
