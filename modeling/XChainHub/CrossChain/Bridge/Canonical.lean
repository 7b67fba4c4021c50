import XChainHub.CrossChain.Dex.Canonical

/-!
The signed bytes of a bridge transfer: the transfer half of canonicalMatch in
cross_chain/bridge_engine.js. A field holds the text its join writes.
-/
namespace XChainHub.CrossChain.Bridge
open EquivocationHeader MirrorAdmissionGate
open Dex (Gates)

structure TransferRow where
  transferId : String
  snapshotBlock : String
  tick : String
  decimals : String
  srcChain : String
  srcActionIndex : String
  srcAddress : String
  destChain : String
  destAddress : String
  amount : String
  effectiveTime : String
  network : Option String
  admitColumns : AdmitColumns
  admitBlocks : Option AdmissionMap
  pushGeneration : String
  deriving DecidableEq

def TransferRow.networkText (r : TransferRow) : String := r.network.getD ""

/- Source, destination and token of a transfer: what no round chooses. -/
def TransferRow.leg (r : TransferRow) : List String :=
  [r.tick, r.decimals, r.srcChain, r.srcActionIndex, r.srcAddress, r.destChain, r.destAddress, r.amount]

def TransferRow.admissionField (g : Gates) (r : TransferRow) : Option String :=
  (rowAdmitBlocks r.admitColumns r.admitBlocks).bind
    (admissionCanonicalField (g.admissionEra r.networkText r.snapshotBlock))

def rawTransfer (g : Gates) (r : TransferRow) : Option String :=
  (r.admissionField g).map (fun tail =>
    String.intercalate "|" ("XBRIDGE" :: r.transferId :: r.snapshotBlock ::
      (r.leg ++ [r.effectiveTime, r.networkText])) ++ tail)

def canonicalTransfer (g : Gates) (r : TransferRow) (view : ℚ) : Option String :=
  (rawTransfer g r).map (fun raw =>
    if isEquivHeaderActive g.equivActivation (g.parseBlock r.snapshotBlock) r.networkText then
      buildEquivCanonical "XBRIDGE" r.transferId (g.numberText view) raw
    else raw)

end XChainHub.CrossChain.Bridge
