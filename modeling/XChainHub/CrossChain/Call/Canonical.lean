import XChainHub.CrossChain.Dex.Canonical

/-!
The signed bytes of a call row in its two phases: canonicalMatch of
cross_chain/call_engine.js. A field holds the text its join writes, none where the
source reads it as null.
-/
namespace XChainHub.CrossChain.Call
open EquivocationHeader MirrorAdmissionGate
open Dex (Gates)

/- The columns of a cross_chain_calls row that a canonical may read, and its fence. -/
structure CallColumns where
  callId : String
  phase : String
  snapshotBlock : String
  network : Option String
  sourceChain : String
  sourceActionIndex : String
  sourceContractIndex : String
  targetChain : String
  targetContractIndex : String
  method : String
  paramsJson : Option String
  gasLimit : String
  crossHops : String
  effectiveTime : String
  resultStatus : Option String
  returnPayloadB64 : Option String
  admitColumns : AdmitColumns
  admitBlocks : Option AdmissionMap
  pushGeneration : String
  deriving DecidableEq

def CallColumns.networkText (r : CallColumns) : String := r.network.getD ""

section Canonical
variable (sha256 : String → String) (g : Gates)

def resultFields (r : CallColumns) : List String :=
  ["XCALL", "RESULT", r.callId, r.snapshotBlock, r.networkText, r.targetChain,
    r.resultStatus.getD "", sha256 (r.returnPayloadB64.getD ""), r.effectiveTime]

def dispatchFields (r : CallColumns) : List String :=
  ["XCALL", "DISPATCH", r.callId, r.snapshotBlock, r.networkText, r.sourceChain, r.sourceActionIndex,
    r.sourceContractIndex, r.targetChain, r.targetContractIndex, r.method,
    sha256 (r.paramsJson.getD ""), r.gasLimit, r.crossHops, r.effectiveTime]

def CallColumns.admissionField (r : CallColumns) : Option String :=
  (rowAdmitBlocks r.admitColumns r.admitBlocks).bind
    (admissionCanonicalField (g.admissionEra r.networkText r.snapshotBlock))

def rawCall (r : CallColumns) : Option String :=
  (r.admissionField g).map (fun tail =>
    String.intercalate "|" (if r.phase = "result" then resultFields sha256 r else dispatchFields sha256 r)
      ++ tail)

def canonicalCall (r : CallColumns) (view : ℚ) : Option String :=
  (rawCall sha256 g r).map (fun raw =>
    if isEquivHeaderActive g.equivActivation (g.parseBlock r.snapshotBlock) r.networkText then
      buildEquivCanonical "XCALL" (sha256 ("XCALLROUND|" ++ r.phase ++ "|" ++ r.callId)) (g.numberText view) raw
    else raw)

end Canonical
end XChainHub.CrossChain.Call
