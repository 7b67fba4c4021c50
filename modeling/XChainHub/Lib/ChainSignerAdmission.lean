import Mathlib.Data.List.Basic

/-!
Which authenticated envelopes are counted toward a quorum, lib/chain_signer_admission.js:
by the proven signing key, never by the sender address.
-/
namespace XChainHub.ChainSignerAdmission

/- What a hub reads off its peer manager: the registry from address to key, none where
   it is not loaded, and the chain-effective signer set. -/
structure Signers where
  validatorPubkeys : Option (List (String × String))
  effectiveSignerSet : Option (List String)

variable (toLowerCase : String → String)

def provenPubkey (sigPubkey : Option String) : Option String :=
  match sigPubkey with
  | none => none
  | some pk => if pk = "" then none else some (toLowerCase pk)

def registryHasPubkey (registry : List (String × String)) (pk : String) : Bool :=
  registry.any (fun entry => entry.2 ≠ "" && toLowerCase entry.2 = pk)

def isAdmissibleSigner (signers : Signers) (sigPubkey : Option String) : Bool :=
  match signers.validatorPubkeys with
  | none => false
  | some registry =>
    match provenPubkey toLowerCase sigPubkey with
    | none => false
    | some pk =>
      let chainSet := signers.effectiveSignerSet.getD []
      if pk ∈ chainSet then true
      else if registryHasPubkey toLowerCase registry pk then true
      else if registry.isEmpty then chainSet.isEmpty
      else false

/- registry.get(addr): one entry an address, so the first match is the entry. -/
def Signers.keyOf (signers : Signers) (addr : String) : Option String :=
  ((signers.validatorPubkeys.getD []).find? (fun entry => entry.1 = addr)).map Prod.snd

variable {toLowerCase}

/-- Only an envelope with a proven key is admitted. -/
theorem admissible_proven {signers : Signers} {sigPubkey : Option String}
    (admissible : isAdmissibleSigner toLowerCase signers sigPubkey = true) :
    ∃ pk, provenPubkey toLowerCase sigPubkey = some pk := by
  unfold isAdmissibleSigner at admissible
  split at admissible
  · exact absurd admissible (by simp)
  · split at admissible
    · exact absurd admissible (by simp)
    · rename_i pk proven
      exact ⟨pk, proven⟩

end XChainHub.ChainSignerAdmission
