import XChainHub.Library.RevivedRows
import XChainHub.CrossChain.Bridge.Canonical
import XChainHub.CrossChain.Call.Canonical

/-!
The three tables of finalized relay rows and the statements that write them: db/cross_chain.js
and insertBridgeTransfer of db/bridge_transfers.js. A column gives back what was bound to it,
and collate is what the unique index compares of an id.
-/
namespace XChainHub.CrossChain.RelayRows
open Dex (Gates MatchRow)
open Bridge (TransferRow)
open Call (CallColumns)

/- A finalized event's row, or a stored one, with validator_signatures and finalizing_view. -/
structure Signed (Row : Type) where
  row : Row
  signatures : List (String × String)
  view : ℤ
  deriving DecidableEq

/- Every signature verifies over the canonical rebuilt from the row and the view. -/
def Verified {Row : Type} (verify : String → String → String → Bool)
    (canonicalMatch : Row → ℤ → Option String) (s : Signed Row) : Prop :=
  ∀ p ∈ s.signatures, (canonicalMatch s.row s.view).any (fun c => verify c p.2 p.1) = true

instance {Row : Type} (verify : String → String → String → Bool)
    (canonicalMatch : Row → ℤ → Option String) (s : Signed Row) :
    Decidable (Verified verify canonicalMatch s) :=
  inferInstanceAs (Decidable (∀ p ∈ s.signatures, _))

/- One table: what an INSERT binds, and what stands after a statement meets a row of the id. -/
structure Rail (Row K : Type) where
  key : Row → K
  canonicalMatch : Row → ℤ → Option String
  columns : Row → Row
  rewrite : Row → Row → Row
  upserts : Bool
  carried : Row → Bool
  agrees : Row → Row → Bool
  canonical_columns : ∀ r v, carried r = true → canonicalMatch (columns r) v = canonicalMatch r v
  canonical_rewrite : ∀ kept new v, agrees kept new = true →
    canonicalMatch (rewrite kept new) v = canonicalMatch new v

section Matches
variable (collate : String → String) (g : Gates)

/- A map that a row carries only in memory has no column. -/
def crossChainMatchColumns (r : MatchRow) : MatchRow := { r with admitBlocks := none }

/- What the revive leaves in the columns of a retracted match. -/
def updateCrossChainMatchByMatchId (kept new : MatchRow) : MatchRow :=
  { kept with effectiveTime := new.effectiveTime }

/- The signed columns that the revive leaves alone are those of the new row. -/
@[mk_iff]
structure MatchAgrees (kept new : MatchRow) : Prop where
  matchId : kept.matchId = new.matchId
  snapshotBlock : kept.snapshotBlock = new.snapshotBlock
  network : kept.networkText = new.networkText
  a : kept.a.fields = new.a.fields ∧ kept.a.fillFields = new.a.fillFields
  b : kept.b.fields = new.b.fields ∧ kept.b.fillFields = new.b.fillFields
  royalty : Dex.royaltyField g kept = Dex.royaltyField g new
  admission : Dex.admissionField g kept = Dex.admissionField g new

instance (kept new : MatchRow) : Decidable (MatchAgrees g kept new) :=
  decidable_of_iff _ (matchAgrees_iff g kept new).symm

theorem match_columns_canonical {r : MatchRow}
    (carried : Dex.admissionField g (crossChainMatchColumns r) = Dex.admissionField g r) (view : ℚ) :
    Dex.canonicalMatch g (crossChainMatchColumns r) view = Dex.canonicalMatch g r view := by
  unfold Dex.canonicalMatch Dex.rawMatch
  rw [carried]
  rfl

theorem match_revive_canonical {kept new : MatchRow} (agrees : MatchAgrees g kept new) (view : ℚ) :
    Dex.canonicalMatch g (updateCrossChainMatchByMatchId kept new) view =
      Dex.canonicalMatch g new view := by
  have base : Dex.baseFields (updateCrossChainMatchByMatchId kept new) = Dex.baseFields new := by
    have network : (updateCrossChainMatchByMatchId kept new).networkText = new.networkText := agrees.network
    unfold Dex.baseFields
    rw [network]
    simp only [updateCrossChainMatchByMatchId, agrees.snapshotBlock, agrees.a, agrees.b]
  have id : (updateCrossChainMatchByMatchId kept new).matchId = new.matchId := agrees.matchId
  have royalty : Dex.royaltyField g (updateCrossChainMatchByMatchId kept new) = Dex.royaltyField g new :=
    agrees.royalty
  have admission : Dex.admissionField g (updateCrossChainMatchByMatchId kept new) =
      Dex.admissionField g new := agrees.admission
  have header : Dex.headerActive g (updateCrossChainMatchByMatchId kept new) = Dex.headerActive g new := by
    have block : (updateCrossChainMatchByMatchId kept new).snapshotBlock = new.snapshotBlock :=
      agrees.snapshotBlock
    have network : (updateCrossChainMatchByMatchId kept new).networkText = new.networkText := agrees.network
    unfold Dex.headerActive
    rw [block, network]
  unfold Dex.canonicalMatch Dex.rawMatch
  rw [admission, base, id, royalty, header]

def matchRail : Rail MatchRow String where
  key := fun r => collate r.matchId
  canonicalMatch := fun r view => Dex.canonicalMatch g r view
  columns := crossChainMatchColumns
  rewrite := updateCrossChainMatchByMatchId
  upserts := false
  carried := fun r => Dex.admissionField g (crossChainMatchColumns r) = Dex.admissionField g r
  agrees := fun kept new => MatchAgrees g kept new
  canonical_columns := fun _ view carried => match_columns_canonical g (of_decide_eq_true carried) view
  canonical_rewrite := fun _ _ view agrees => match_revive_canonical g (of_decide_eq_true agrees) view

end Matches

section Transfers
variable (collate : String → String) (g : Gates)

def bridgeTransferColumns (r : TransferRow) : TransferRow := { r with admitBlocks := none }

/- What the revive of insertBridgeTransfer leaves in the columns of a retracted transfer. -/
def reviveBridgeTransfer (kept new : TransferRow) : TransferRow :=
  { kept with
    effectiveTime := new.effectiveTime
    snapshotBlock := new.snapshotBlock
    pushGeneration := new.pushGeneration }

@[mk_iff]
structure TransferAgrees (kept new : TransferRow) : Prop where
  transferId : kept.transferId = new.transferId
  leg : kept.leg = new.leg
  network : kept.networkText = new.networkText
  admission : (reviveBridgeTransfer kept new).admissionField g = new.admissionField g

instance (kept new : TransferRow) : Decidable (TransferAgrees g kept new) :=
  decidable_of_iff _ (transferAgrees_iff g kept new).symm

theorem transfer_columns_canonical {r : TransferRow}
    (carried : (bridgeTransferColumns r).admissionField g = r.admissionField g) (view : ℚ) :
    Bridge.canonicalTransfer g (bridgeTransferColumns r) view = Bridge.canonicalTransfer g r view := by
  unfold Bridge.canonicalTransfer Bridge.rawTransfer
  rw [carried]
  rfl

theorem transfer_revive_canonical {kept new : TransferRow} (agrees : TransferAgrees g kept new) (view : ℚ) :
    Bridge.canonicalTransfer g (reviveBridgeTransfer kept new) view =
      Bridge.canonicalTransfer g new view := by
  have id : (reviveBridgeTransfer kept new).transferId = new.transferId := agrees.transferId
  have leg : (reviveBridgeTransfer kept new).leg = new.leg := agrees.leg
  have network : (reviveBridgeTransfer kept new).networkText = new.networkText := agrees.network
  unfold Bridge.canonicalTransfer Bridge.rawTransfer
  rw [agrees.admission, id, leg, network]
  rfl

def transferRail : Rail TransferRow String where
  key := fun r => collate r.transferId
  canonicalMatch := fun r view => Bridge.canonicalTransfer g r view
  columns := bridgeTransferColumns
  rewrite := reviveBridgeTransfer
  upserts := false
  carried := fun r => (bridgeTransferColumns r).admissionField g = r.admissionField g
  agrees := fun kept new => TransferAgrees g kept new
  canonical_columns := fun _ view carried => transfer_columns_canonical g (of_decide_eq_true carried) view
  canonical_rewrite := fun _ _ view agrees => transfer_revive_canonical g (of_decide_eq_true agrees) view

end Transfers

section Calls
variable (collate : String → String) (sha256 : String → String) (g : Gates)

def callFinalizedColumns (r : CallColumns) : CallColumns := { r with admitBlocks := none }

/- The upsert overwrites every column but the two of the unique index. -/
def setCrossChainCallFinalized (kept new : CallColumns) : CallColumns :=
  { callFinalizedColumns new with
    callId := kept.callId
    phase := kept.phase }

@[mk_iff]
structure CallAgrees (kept new : CallColumns) : Prop where
  callId : kept.callId = new.callId
  phase : kept.phase = new.phase
  admission : (callFinalizedColumns new).admissionField g = new.admissionField g

instance (kept new : CallColumns) : Decidable (CallAgrees g kept new) :=
  decidable_of_iff _ (callAgrees_iff g kept new).symm

theorem call_columns_canonical {r : CallColumns}
    (carried : (callFinalizedColumns r).admissionField g = r.admissionField g) (view : ℚ) :
    Call.canonicalCall sha256 g (callFinalizedColumns r) view = Call.canonicalCall sha256 g r view := by
  unfold Call.canonicalCall Call.rawCall
  rw [carried]
  rfl

theorem call_upsert_canonical {kept new : CallColumns} (agrees : CallAgrees g kept new) (view : ℚ) :
    Call.canonicalCall sha256 g (setCrossChainCallFinalized kept new) view =
      Call.canonicalCall sha256 g new view := by
  have same : setCrossChainCallFinalized kept new = callFinalizedColumns new := by
    unfold setCrossChainCallFinalized
    rw [agrees.callId, agrees.phase]
    rfl
  rw [same]
  exact call_columns_canonical sha256 g agrees.admission view

def callRail : Rail CallColumns (String × String) where
  key := fun r => (collate r.callId, collate r.phase)
  canonicalMatch := fun r view => Call.canonicalCall sha256 g r view
  columns := callFinalizedColumns
  rewrite := setCrossChainCallFinalized
  upserts := true
  carried := fun r => (callFinalizedColumns r).admissionField g = r.admissionField g
  agrees := fun kept new => CallAgrees g kept new
  canonical_columns := fun _ view carried => call_columns_canonical sha256 g (of_decide_eq_true carried) view
  canonical_rewrite := fun _ _ view agrees => call_upsert_canonical sha256 g (of_decide_eq_true agrees) view

end Calls
end XChainHub.CrossChain.RelayRows
