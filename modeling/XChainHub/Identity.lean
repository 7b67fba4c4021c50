import XChainHub.Library.ScriptValue

/-!
The Ed25519 identity of a hub, validators/identity.js. Signing and verification
on bytes are the crypto library's; the hexadecimal texts around them are read and
written here.
-/
namespace XChainHub.ValidatorIdentity
open HexText ScriptValue

/- What the crypto library fixes about keys and signatures: raw keys have 32 bytes and only a
   signature of 64 bytes verifies. -/
structure Ed25519 where
  PublicKey : Type
  createPublicKey : List ℕ → Option PublicKey
  verify : PublicKey → String → List ℕ → Bool
  raw_length : ∀ raw key, createPublicKey raw = some key → raw.length = 32
  signature_length : ∀ key payload sig, verify key payload sig = true → sig.length = 64

def pubkeyFromHex (crypto : Ed25519) (hex : String) : Option crypto.PublicKey :=
  if hex.toList.length ≠ 64 then none else crypto.createPublicKey (hexBytes hex.toList)

def verify (crypto : Ed25519) (payload sigHex pubkeyHex : String) : Bool :=
  if sigHex = "" || pubkeyHex = "" then false
  else
    match pubkeyFromHex crypto pubkeyHex with
    | some key => crypto.verify key payload (hexBytes sigHex.toList)
    | none => false

/- A hub's own key pair. -/
structure Identity where
  rawPubkey : List ℕ
  signBytes : String → List ℕ
  pubkey_length : rawPubkey.length = 32
  signature_length : ∀ payload, (signBytes payload).length = 64

def Identity.getPubkeyHex (identity : Identity) : String :=
  String.ofList (hexText identity.rawPubkey)

def Identity.sign (identity : Identity) (payload : String) : String :=
  String.ofList (hexText (identity.signBytes payload))

theorem replicated_key (byte : ℕ) : (List.replicate 32 byte).length = 32 := List.length_replicate

theorem raw_of_sized (raw key : List ℕ)
    (built : (if raw.length = 32 then some raw else none) = some key) : raw.length = 32 := by
  split at built
  · assumption
  · simp at built

theorem own_pubkey_lower (identity : Identity) : LowerHex 64 identity.getPubkeyHex := by
  unfold LowerHex Identity.getPubkeyHex
  rw [String.toList_ofList]
  constructor
  · rw [hex_text_length, identity.pubkey_length]
  · exact hex_text_lower _

theorem own_signature_lower (identity : Identity) (payload : String) :
    LowerHex 128 (identity.sign payload) := by
  unfold LowerHex Identity.sign
  rw [String.toList_ofList]
  constructor
  · rw [hex_text_length, identity.signature_length]
  · exact hex_text_lower _

/-- A signature verifies on the bytes of its first 128 characters, whatever follows them. -/
theorem verified_signature {crypto : Ed25519} {payload sigHex pubkeyHex : String}
    (verified : verify crypto payload sigHex pubkeyHex = true) :
    (hexBytes sigHex.toList).length = 64 ∧ pubkeyHex.toList.length = 64 ∧
      ∀ c ∈ pubkeyHex.toList, isHexDigit c = true := by
  unfold verify at verified
  split at verified
  · exact absurd verified (by simp)
  · split at verified
    · rename_i key built
      unfold pubkeyFromHex at built
      split at built
      · exact absurd built (by simp)
      · rename_i sized
        rw [not_not] at sized
        have raw := crypto.raw_length _ _ built
        refine ⟨crypto.signature_length _ _ _ verified, sized, ?_⟩
        apply hex_of_full
        omega
    · exact absurd verified (by simp)

end XChainHub.ValidatorIdentity
